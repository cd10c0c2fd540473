import LintSetup.Dialogue
import LintSetup.Machine.Host
import LintSetup.Script.Builtin

/-!
# Running scripts

A script that runs is a conversation: it asks for the next line of its input, for the files, and for
files and streams to be written.  So a process that waits for input is a value like any other.

Loops may go on for as long as there is input; `maxSteps` bounds how deep the run of a script may
go.

* `Console` --- the conversation;
* `execute` --- a command;
* `start` --- a script with its arguments.
-/

namespace LintSetup.Script

open Text (Bytes)

/-- What a script that runs asks for.  A line has its line feed; there is none at the end of the
input. -/
inductive Console.Request where
  | line
  | files
  | setFiles (files : Node)
  | emit (stream : Nat) (content : Bytes)

/-- The type of the answer to each request. -/
def Console.Request.Response : Console.Request → Type
  | line => Bytes
  | files => Node
  | setFiles _ => Unit
  | emit .. => Unit

/-- The conversation of a script. -/
def Console : Interface := ⟨Console.Request, Console.Request.Response⟩

/-- Where output goes: to a stream of the process, to the end of a file, or nowhere. -/
inductive Sink where
  | stream (n : Nat)
  | file (path : String)
  | nowhere

/-- The state of a script: its scope and directory, the rest of the file that input comes from, if
it does not come from the process, and where output goes. -/
structure State where
  scope : Scope := {}
  directory : String := "/"
  input : Option Str := none
  output : Sink := .stream 1
  errors : Sink := .stream 2

/-- What ends a part of a script early: the end of all of it, of a loop, or of a turn of a loop. -/
inductive Stop where
  | script (exit : Exit)
  | loop
  | turn

/-- A part of a script, which may be ended early. -/
abbrev Run := ExceptT Stop (StateT State (Dialogue Console))

/-- One request as a part of a script. -/
def ask (r : Console.Request) : Run r.Response :=
  ExceptT.lift (StateT.lift (Dialogue.ask (I := Console) r))

/-- The path that a text is. -/
def pathOf (s : Str) : Run String := return Path.join (← get).directory (decoded s)

/-- Gives a variable a value. -/
def assign (name value : Str) : Run Unit :=
  modify fun s => { s with scope := s.scope.assign name value }

/-- Remembers the status of a command. -/
def remember (status : Nat) : Run Unit :=
  modify fun s => { s with scope := { s.scope with status } }

/-- The status of something that succeeds or not. -/
def statusOf (success : Bool) : Nat := if success then 0 else 1

/-- Writes a text somewhere. -/
def put (sink : Sink) (text : Str) : Run Unit := do
  match sink with
  | .stream n => ask (.emit n (toBytes text))
  | .file path =>
    let files ← ask .files
    let old := ((files : Node).readBytes path).toOption.getD []
    match (files : Node).write path (old ++ toBytes text) with
    | .ok files => ask (.setFiles files)
    | .error _ => return ()
  | .nowhere => return ()

/-- The next line of the input, with its line feed if it has one. -/
def nextLine : Run Str := do
  match (← get).input with
  | none => return ofBytes (← ask .line)
  | some text =>
    let line := text.takeWhile (· != '\n') ++ (text.dropWhile (· != '\n')).take 1
    modify fun s => { s with input := some (text.drop line.length) }
    return line

/-- Reads a line into variables.  The last line counts as missing if it has no line feed. -/
def readLine (names : List Str) : Run Nat := do
  let line ← nextLine
  let complete := line.getLast? == some '\n'
  let separators := (Members.get? (← get).scope.bindings "IFS").getD [' ', '\t', '\n']
  for (name, value) in distribute separators names (if complete then line.dropLast else line) do
    assign name value
  return statusOf complete

/-- Whether an argument is an option. -/
def isOption (arg : Str) : Bool := arg.head? == some '-'

/-- The status of a script that ends because it uses one of its own commands wrongly. -/
def misuse : Nat := 2

/-- Runs a command that a script has by itself. -/
def runBuiltin (name : String) (args : List Str) : Run Nat := do
  match name with
  | ":" => return 0
  | "true" => return 0
  | "false" => return 1
  | "printf" =>
    put (← get).output (formatted (args.headD []) (args.drop 1))
    return 0
  | "echo" =>
    let endsLine := args.head? != some ['-', 'n']
    let text := unescaped ([' '].intercalate (if endsLine then args else args.drop 1))
    put (← get).output (if endsLine then text ++ ['\n'] else text)
    return 0
  | "pwd" =>
    put (← get).output (ofString (← get).directory ++ ['\n'])
    return 0
  | "read" => readLine (args.filter (!isOption ·))
  | "[" => return statusOf (holds (← ask .files) (← get).directory args.dropLast)
  | "test" => return statusOf (holds (← ask .files) (← get).directory args)
  | "shift" =>
    if (← get).scope.args.isEmpty then throw (.script (.code misuse))
    modify fun s => { s with scope := { s.scope with args := s.scope.args.drop 1 } }
    return 0
  | "break" => throw .loop
  | "continue" => throw .turn
  | "exit" =>
    match args with
    | [] => throw (.script (.code (← get).scope.status))
    | arg :: _ =>
      let code := if arg.all Char.isDigit then number? arg else none
      throw (.script (.code ((code.map fun n => (n % 256).toNat).getD misuse)))
  | "kill" => if args.getLast? == some ownProcess then throw (.script .signal) else return 1
  | _ =>
    put (← get).errors ((← get).scope.name ++ ofString s!": {name}: not found\n")
    return 127

/-- Leads the output or the errors somewhere. -/
def setSink (stream : Nat) (sink : Sink) : Run Unit :=
  modify fun s => if stream = 2 then { s with errors := sink } else { s with output := sink }

/-- Makes a redirection; gives whether that was possible. -/
def redirect (r : Redirect) : Run Bool := do
  let text := expand (← get).scope r.target
  let path ← pathOf text
  if path = "/dev/null" && r.direction != .duplicate then
    if r.direction = .input then modify fun s => { s with input := some [] }
    else setSink r.stream .nowhere
    return true
  match r.direction with
  | .duplicate =>
    let s ← get
    setSink r.stream (if text = ['2'] then s.errors else s.output)
    return true
  | .input =>
    match ((← ask .files) : Node).readBytes path with
    | .ok content =>
      modify fun s => { s with input := some (ofBytes content) }
      return true
    | .error _ => return false
  | direction =>
    let files ← ask .files
    let old := if direction = .append then ((files : Node).readBytes path).toOption.getD [] else []
    match (files : Node).write path old with
    | .ok files =>
      ask (.setFiles files)
      setSink r.stream (.file path)
      return true
    | .error _ => return false

/-- Makes redirections, up to the first one that is not possible. -/
def redirectAll : List Redirect → Run Bool
  | [] => pure true
  | r :: rest => do
    if ← redirect r then redirectAll rest else return false

/-- Runs a part of a script with redirections, which end with it.  What is read from an input that
was not redirected stays read. -/
def withRedirects (redirects : List Redirect) (body : Run Nat) : Run Nat := do
  let before ← get
  let possible ← redirectAll redirects
  let redirected := redirects.any (·.direction == .input)
  let restore (s : State) : State :=
    { s with
      input := if redirected then before.input else s.input
      output := before.output
      errors := before.errors }
  try
    let status ← if possible then body else pure 1
    modify restore
    return status
  catch stop =>
    modify restore
    throw stop

/-- Makes assignments one after another. -/
def assignAll : List (Str × Word) → Run Unit
  | [] => pure ()
  | (name, value) :: rest => do
    assign name (expand (← get).scope value)
    assignAll rest

/-- Runs a simple command.  Assignments without a command stay, and others are for the command only,
but what the command itself assigns stays. -/
def runSimple (assigned : List (Str × Word)) (words : List Word) (redirects : List Redirect) :
    Run Nat := do
  match words.flatMap (fields (← get).scope) with
  | [] =>
    assignAll assigned
    withRedirects redirects (pure 0)
  | name :: args =>
    let before := (← get).scope.bindings
    assignAll assigned
    let status ← withRedirects redirects (runBuiltin (decoded name) args)
    for (name, _) in assigned do
      let key := String.ofList name
      let restore (now : Members Str) : Members Str :=
        match Members.get? before key with
        | some old => Members.set now key old
        | none => Members.erase now key
      modify fun s => { s with scope := { s.scope with bindings := restore s.scope.bindings } }
    return status

/-- The commands of the first case that a text fits. -/
def caseFor (s : Scope) (text : Str) (cases : List (List Word × Command)) : Command :=
  match cases.find? fun (patterns, _) => patterns.any fun p => matchesPattern (expandPieces s p) text with
  | some (_, body) => body
  | none => .skip

/-- Runs a turn of a loop; `none` when it ends the loop. -/
def turn (body : Run Nat) : Run (Option Nat) := do
  try
    return some (← body)
  catch
    | .loop => return none
    | .turn => return some 0
    | .script exit => throw (.script exit)

/-- How deep the run of a script may go. -/
def maxSteps : Nat := 1000000000

mutual

/-- Runs a command; gives its status. -/
def execute : Nat → Command → Run Nat
  | 0, _ => throw (.script .signal)
  | _ + 1, .skip => return 0
  | _ + 1, .simple assigned words redirects => do
    let status ← runSimple assigned words redirects
    remember status
    return status
  | fuel + 1, .sequence first rest => do
    let status ← execute fuel first
    match rest with
    | .skip => return status
    | rest => execute fuel rest
  | fuel + 1, .both left right => do
    let status ← execute fuel left
    if status = 0 then execute fuel right else return status
  | fuel + 1, .either left right => do
    let status ← execute fuel left
    if status = 0 then return status else execute fuel right
  | fuel + 1, .negated c => do
    let status := statusOf ((← execute fuel c) != 0)
    remember status
    return status
  | fuel + 1, .branch condition body otherwise => do
    if (← execute fuel condition) = 0 then execute fuel body else execute fuel otherwise
  | fuel + 1, .repeated condition body => executeWhile fuel condition body 0
  | fuel + 1, .each name words body => do
    let scope := (← get).scope
    executeEach fuel name ((words.map (·.flatMap (fields scope))).getD scope.args) body 0
  | fuel + 1, .choice word cases => do
    let scope := (← get).scope
    execute fuel (caseFor scope (expand scope word) cases)
  | fuel + 1, .redirected c redirects => withRedirects redirects (execute fuel c)

/-- Runs commands as long as a condition succeeds; gives the status of the last one. -/
def executeWhile : Nat → Command → Command → Nat → Run Nat
  | 0, _, _, _ => throw (.script .signal)
  | fuel + 1, condition, body, status => do
    if (← execute fuel condition) = 0 then
      match ← turn (execute fuel body) with
      | some status => executeWhile fuel condition body status
      | none => return 0
    else return status

/-- Runs commands for each of several values of a variable; gives the status of the last one. -/
def executeEach : Nat → Str → List Str → Command → Nat → Run Nat
  | 0, _, _, _, _ => throw (.script .signal)
  | _ + 1, _, [], _, status => return status
  | fuel + 1, name, v :: rest, body, _ => do
    assign name v
    match ← turn (execute fuel body) with
    | some status => executeEach fuel name rest body status
    | none => return 0

end

/-- The exit that the end of a run comes to. -/
def exitOf : Except Stop Nat → Exit
  | .ok status => .code status
  | .error (.script exit) => exit
  | .error .loop => .code 0
  | .error .turn => .code 0

/-- A script that starts in a state.  One that cannot be read fails at once. -/
def start (script : Bytes) (s : State) : Dialogue Console Exit :=
  match parse? (ofBytes script) with
  | none => .done (.code 2)
  | some c => do
    let (result, _) ← (execute maxSteps c).run.run s
    return exitOf result

end LintSetup.Script
