import LintSetup.Failure
import LintSetup.Project.Installation

/-!
# Handing over to the linter

The linter that a project works with is found and run with the arguments as they are, and its exit
code becomes the one of this program.

* `exitCode` --- the exit code of a program for a code of another one;
* `launch` --- finding and running the linter.
-/

namespace LintSetup.CommandLine

/-- The exit code for a code: itself if a program can end with it, and the one for failure
otherwise. -/
def exitCode (code : Int) : Nat := if 0 ≤ code ∧ code ≤ 255 then code.toNat else 1

/-- The exit code for failure. -/
def failureCode : Nat := 1

/-- What the user is told when no linter is found. -/
def notFoundText : String :=
  "Cannot find local ESLint!\n" ++
  "Please install ESLint by \x60npm install eslint --save-dev\x60.\n"

/-- Runs a command with the streams of this program; gives its exit code. -/
def execute (command : Command) : Host.Session (Except Failure Int) := do
  match ← Host.run command with
  | .error e => return .error (.during (.runCommand command.display) (.io e))
  | .ok exit => return .ok exit.toCode

/-- Tells the user something about a failure. -/
def complain (text : String) : Host.Session Unit := Host.ask (.complain (text ++ "\n"))

/-- Runs the linter of the project in a directory; gives the exit code. -/
def launch (directory : String) (args : List String) : Host.Session Nat := do
  let files ← Host.ask .files
  let searchPath ← Host.ask .searchPath
  let self ← Host.ask .ownProgram
  match Installation.find? files searchPath self directory with
  | none =>
    complain notFoundText
    return failureCode
  | some installation =>
    match ← execute (installation.command directory args) with
    | .error f =>
      complain f.chain
      return failureCode
    | .ok code => return exitCode code

end LintSetup.CommandLine
