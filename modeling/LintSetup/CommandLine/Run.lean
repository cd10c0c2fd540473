import LintSetup.CommandLine.Launch
import LintSetup.Packages.Npm
import LintSetup.Wizard.Setup

/-!
# The command line

All arguments are for the linter, except that `--init` before a `--` asks for the project to be set
up. The program talks to the machine and to the user; the package manager is a program on the
machine.

* `wantsSetup` --- whether the arguments ask for a set-up;
* `failureReport` --- how a failure is reported;
* `Terminal` --- the conversation with the machine and the user;
* `run` --- the program.
-/

namespace LintSetup

namespace CommandLine

/-- Whether arguments ask for the project to be set up. -/
def wantsSetup (args : List String) : Bool := (args.takeWhile (· != "--")).contains "--init"

/-- A text with a margin: the first line has one, and the lines after it have another. -/
def indentedBy (first rest : String) (text : String) : String :=
  first ++ ("\n" ++ rest).intercalate (Text.pieces '\n' text)

/-- A cause among several, with its number in front. -/
def numberedCause (cause : String) (n : Nat) : String :=
  let number := toString n
  let margin := String.ofList (List.replicate (5 - number.length) ' ')
  "\n" ++ indentedBy (margin ++ number ++ ": ") "       " cause

/-- The causes of a failure, each on lines of its own; if there are several, they are numbered. -/
def causesText : List String → String
  | [] => ""
  | [cause] => "\n\nCaused by:\n" ++ indentedBy "    " "    " cause
  | causes => "\n\nCaused by:" ++ String.join (causes.zipIdx.map fun (cause, n) => numberedCause cause n)

/-- The report of a failure: a missing file or program has a text of its own, and otherwise the
outermost attempt comes first and its causes follow. -/
def failureReport (f : Failure) : String :=
  match f.cause, f.texts with
  | .packageJsonMissing, _ => packageJsonMissingText
  | .npmMissing, _ => npmMissingText
  | _, [] => ""
  | _, outermost :: causes => outermost ++ causesText causes

/-- The report of a set-up that has failed. -/
def report : Wizard.Error → String
  | .failed f => failureReport f
  | .inspection e => e.message

/-- What is asked of the machine and of the user. -/
inductive Terminal.Request where
  | question (q : Wizard.Question)
  | host (r : Host.Request)

/-- The type of the answer to each request. -/
def Terminal.Request.Response : Terminal.Request → Type
  | question q => Except Failure q.Answer
  | host r => r.Response

/-- The conversation with the machine and the user. -/
def Terminal : Interface := ⟨Terminal.Request, Terminal.Request.Response⟩

/-- A conversation with the machine as a part of the program. -/
def onHost {α : Type} (d : Host.Session α) : Dialogue Terminal α :=
  d.through fun r => Dialogue.ask (I := Terminal) (.host r)

/-- The answers to a set-up, in which the package manager is a program. -/
def serve (context : Context) :
    (r : Wizard.Request) → Packages.Npm → Dialogue Terminal (r.Response × Packages.Npm)
  | .question q, npm => do return (← Dialogue.ask (I := Terminal) (.question q), npm)
  | .packages r, npm => onHost (Packages.Npm.answer context r npm)
  | .host r, npm => do return (← Dialogue.ask (I := Terminal) (.host r), npm)

/-- Tells the user why a set-up has failed; gives the exit code. -/
def giveUp (text : String) : Dialogue Terminal Nat := do
  onHost (Host.say text)
  return failureCode

/-- Sets the project in a directory up; gives the exit code. -/
def setUp (directory : String) : Dialogue Terminal Nat := do
  match Context.load (← onHost (Host.ask .files)) directory with
  | .error f => giveUp (failureReport f)
  | .ok context =>
    let (result, _) ← (Wizard.setUp context false).run.throughWith (serve context) {}
    match result with
    | .ok _ => return 0
    | .error e => giveUp (report e)

/-- The program, run in a directory with arguments; gives the exit code. -/
def run (directory : String) (args : List String) : Dialogue Terminal Nat :=
  if wantsSetup args then setUp directory else onHost (launch directory args)

end CommandLine
end LintSetup
