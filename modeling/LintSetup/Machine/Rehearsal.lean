import LintSetup.Project.Installation
import LintSetup.Script.Run

/-!
# Rehearsals

A conversation with the machine can be rehearsed on a machine that is a value: it has a tree of
files, and its programs are scripts among them.  A process that shares the streams of the program,
or whose output is buffered, runs to its end when it is started, and its input is empty; one with
pipes runs until it waits for a line, and goes on when it is sent one.

* `Process` --- a process: what is left of its run, and what is in its pipes;
* `Machine` --- the machine;
* `Machine.answer` --- what it answers.
-/

namespace LintSetup

open Text (Bytes)

/-- A process: what it is still to do, the input that it has not read, and the output that nobody
has read. `closed` says whether its end was noticed. -/
structure Process where
  todo : Dialogue Script.Console Exit
  streams : Streams
  input : Bytes := []
  output : Bytes := []
  closed : Bool := false

/-- A machine. -/
structure Machine where
  files : Node
  searchPath : List String := []
  ownProgram : Option String := none
  printed : Bytes := []
  complaints : Bytes := []
  warnings : List String := []
  processes : List Process := []

namespace Machine

/-- The byte that ends a line. -/
def lineFeed : UInt8 := 10

/-- The first line of bytes, with its line feed if it has one. -/
def firstLine (bs : Bytes) : Bytes :=
  bs.takeWhile (· != lineFeed) ++ (bs.dropWhile (· != lineFeed)).take 1

/-- What writing to a stream does to a machine and the process that writes. -/
def emit (m : Machine) (p : Process) (stream : Nat) (content : Bytes) : Machine × Process :=
  if stream = 2 then ({ m with complaints := m.complaints ++ content }, p)
  else if p.streams = .shared then ({ m with printed := m.printed ++ content }, p)
  else (m, { p with output := p.output ++ content })

/-- Goes on with a process until it has ended or waits for a line. -/
def advance (m : Machine) (p : Process) : Dialogue Script.Console Exit → Machine × Process
  | .done exit => (m, { p with todo := .done exit })
  | .request .line next =>
    let line := firstLine p.input
    if p.streams = .piped && line.getLast? != some lineFeed then
      (m, { p with todo := .request .line next })
    else advance m { p with input := p.input.drop line.length } (next line)
  | .request .files next => advance m p (next m.files)
  | .request (.setFiles files) next => advance { m with files } p (next ())
  | .request (.emit stream content) next =>
    let (m, p) := emit m p stream content
    advance m p (next ())

/-- The places where a program is looked for: the path that it is, or the directories of the search
path. -/
def placesOf (m : Machine) (c : Command) : List String :=
  if c.program.toList.contains '/' then [Path.join c.directory c.program]
  else if c.program.isEmpty then []
  else m.searchPath.map (Path.join · c.program)

/-- The script at a path.  A program starts with the sign for one. -/
def scriptAt (files : Node) (path : String) : Except IoError Bytes :=
  match files.lookup path with
  | .error e => .error e
  | .ok (.file content true) =>
    if content.take 2 = Text.encode "#!" then .ok content else .error .notAProgram
  | .ok _ => .error .permissionDenied

/-- The first script among places.  A place without a file is passed over, and so is a file that
cannot be run; the latter is the reason if there is no script at all. -/
def firstScript (files : Node) (refused : Bool) : List String → Except IoError (String × Bytes)
  | [] => .error (if refused then .permissionDenied else .notFound)
  | place :: rest =>
    match scriptAt files place with
    | .ok content => .ok (place, content)
    | .error e =>
      match e.kind with
      | .notFound => firstScript files refused rest
      | .notADirectory => firstScript files refused rest
      | .permissionDenied => firstScript files true rest
      | _ => .error e

/-- The state in which a script starts. -/
def startState (c : Command) (directory place : String) : Script.State :=
  let bindings := ("PWD", directory) :: c.environment
  { scope :=
      { bindings := bindings.map fun (k, v) => (k, Script.ofString v)
        args := c.args.map Script.ofString
        name := Script.ofString place }
    directory }

/-- Starts a command. -/
def start (m : Machine) (c : Command) (streams : Streams) : Except IoError ProcessId × Machine :=
  match m.files.canonical? c.directory, firstScript m.files false (m.placesOf c) with
  | none, _ => (.error .notFound, m)
  | some _, .error e => (.error e, m)
  | some directory, .ok (place, script) =>
    if m.files.isDir directory then
      let todo := Script.start script (startState c directory place)
      let (m, p) := advance m { todo, streams } todo
      (.ok m.processes.length, { m with processes := m.processes ++ [p] })
    else (.error .notADirectory, m)

/-- The process with a number; there is an ended one in place of any other. -/
def process (m : Machine) (id : ProcessId) : Process :=
  m.processes.getD id { todo := .done .signal, streams := .buffered, closed := true }

/-- The machine with another process under a number. -/
def setProcess (m : Machine) (id : ProcessId) (p : Process) : Machine :=
  { m with processes := m.processes.set id p }

/-- How a process ended; one that has not is ended. -/
def exitOf (p : Process) : Exit :=
  match p.todo with
  | .done exit => exit
  | .request .. => .signal

/-- Takes lines up to the first one at which to stop, with as many steps as there are bytes; gives
that line and the rest. -/
def takeLines (stop : Bytes → Bool) : Nat → Bytes → Option Bytes × Bytes
  | 0, _ => (none, [])
  | fuel + 1, bs =>
    if bs.isEmpty then (none, [])
    else
      let line := firstLine bs
      let rest := bs.drop line.length
      if stop line then (some line, rest) else takeLines stop fuel rest

/-- Sends a text to a process.  After its end was noticed there is nobody to read it. -/
def send (m : Machine) (id : ProcessId) (text : String) : Except IoError Unit × Machine :=
  let p := m.process id
  if p.closed then (.error .brokenPipe, m)
  else
    let p := { p with input := p.input ++ Text.encode text }
    let (m, p) := advance m p p.todo
    (.ok (), m.setProcess id p)

/-- Takes lines from a process. -/
def receive (m : Machine) (id : ProcessId) (stop : Bytes → Bool) : Option Bytes × Machine :=
  let p := m.process id
  let (line, output) := takeLines stop p.output.length p.output
  (line, m.setProcess id { p with output, closed := p.closed || line.isNone })

/-- What a machine answers, and the machine after it. -/
def answer : Handler Host Machine
  | .files, m => (m.files, m)
  | .searchPath, m => (m.searchPath, m)
  | .ownProgram, m => (m.ownProgram, m)
  | .write path text, m =>
    match m.files.write path (Text.encode text) with
    | .ok files => (.ok (), { m with files })
    | .error e => (.error e, m)
  | .print text, m => ((), { m with printed := m.printed ++ Text.encode text })
  | .complain text, m => ((), { m with complaints := m.complaints ++ Text.encode text })
  | .warn message, m => ((), { m with warnings := m.warnings ++ [message] })
  | .start command streams, m => m.start command streams
  | .wait id, m => ((exitOf (m.process id), (m.process id).output), m)
  | .send id text, m => m.send id text
  | .receive id stop, m => m.receive id stop
  | .kill id, m => ((), m.setProcess id { m.process id with closed := true })

end Machine
end LintSetup
