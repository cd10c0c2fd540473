import LintSetup.Dialogue
import LintSetup.File.Tree

/-!
# The machine as a conversation partner

What the program does to the machine that it runs on, and what it learns from it.  The files are
asked for as a whole tree; a command is started with its streams connected in one of three ways, and
is then waited for or talked to.

* `Command` --- a program with arguments and a working directory;
* `Exit` --- how a process ended;
* `Host` --- the conversation.
-/

namespace LintSetup

open Text (Bytes)

/-- A program to run, with its arguments, its working directory and additions to its environment. -/
structure Command where
  program : String
  args : List String
  directory : String
  environment : Members String := []
  deriving DecidableEq, Repr

/-- The command in one line. -/
def Command.display (c : Command) : String := " ".intercalate (c.program :: c.args)

/-- How a process ended: by itself, with a code, or by a signal. -/
inductive Exit where
  | code (n : Nat)
  | signal
  deriving DecidableEq, Repr

/-- The code of an exit; a process that a signal ended counts as failed. -/
def Exit.toCode : Exit → Int
  | code n => n
  | signal => 1

/-- Where the input of a process comes from and where its output goes: to where those of this
program go, into a buffer, or through pipes on which lines are exchanged. -/
inductive Streams where
  | shared
  | buffered
  | piped
  deriving DecidableEq, Repr

/-- Stands for a process. -/
abbrev ProcessId := Nat

/-- What is asked of the machine.  `receive` takes lines from a process up to the first one that
`stop` accepts and answers that line, or nothing when the output ends before. -/
inductive Host.Request where
  | files
  | searchPath
  | ownProgram
  | write (path text : String)
  | print (text : String)
  | complain (text : String)
  | warn (message : String)
  | start (command : Command) (streams : Streams)
  | wait (process : ProcessId)
  | send (process : ProcessId) (text : String)
  | receive (process : ProcessId) (stop : Bytes → Bool)
  | kill (process : ProcessId)

/-- The type of the answer to each request. -/
def Host.Request.Response : Host.Request → Type
  | files => Node
  | searchPath => List String
  | ownProgram => Option String
  | write .. => Except IoError Unit
  | print _ | complain _ | warn _ => Unit
  | start .. => Except IoError ProcessId
  | wait _ => Exit × Bytes
  | send .. => Except IoError Unit
  | receive .. => Option Bytes
  | kill _ => Unit

/-- The conversation with the machine. -/
def Host : Interface := ⟨Host.Request, Host.Request.Response⟩

namespace Host

/-- A conversation with the machine. -/
abbrev Session (α : Type) := Dialogue Host α

/-- One request as a conversation. -/
def ask (r : Request) : Session r.Response := Dialogue.ask (I := Host) r

/-- Prints a line. -/
def say (line : String) : Session Unit := ask (.print (line ++ "\n"))

/-- Runs a command to its end with the streams of this program. -/
def run (command : Command) : Session (Except IoError Exit) := do
  match ← ask (.start command .shared) with
  | .error e => return .error e
  | .ok process =>
    let (exit, _) ← ask (.wait process)
    return .ok exit

end Host
end LintSetup
