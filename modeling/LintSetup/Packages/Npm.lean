import LintSetup.Json.Parse
import LintSetup.Machine.Host
import LintSetup.Packages.Manager
import LintSetup.Project.Context
import LintSetup.Text.Blank

/-!
# The package manager as a program

The package manager of a project is a program that is run in the project's directory.  A look-up is
one run of it, whose output is the peer dependencies; once a look-up of a package has succeeded, its
answer is remembered, and a look-up that failed is not.

* `parsePeers` --- what the output of a look-up says;
* `Npm` --- the answers that are remembered and the look-ups that are under way;
* `Npm.answer` --- the answers to what is asked of a package manager.
-/

namespace LintSetup.Packages

/-- The peer dependencies that an output lists.  A blank output lists none. -/
def parsePeers (output : String) : Except Failure Peers :=
  let output := Text.trim output
  if output.isEmpty then .ok []
  else
    match Json.parse? output with
    | none => .error (.of (.malformed .json))
    | some (.obj peers) => .ok peers
    | some v => .error (.of (.noObject v.compact))

/-- The failure to start the program: it may not be there at all. -/
def startFailure (e : IoError) : Failure :=
  if e.kind = .notFound then .of .npmMissing else .during .runNpm (.io e)

/-- The failure of a run that ended badly. -/
def exitFailure (exit : Exit) : Failure := .of (.npmExit exit.toCode)

/-- What a run that looked a package up has come to. -/
def concludeLookup (package : String) (exit : Exit) (output : Text.Bytes) : Except Failure Peers :=
  if exit = .code 0 then
    match parsePeers (Text.decodeLossy output) with
    | .ok peers => .ok peers
    | .error f => .error { f with attempts := .readPeers package :: f.attempts }
  else .error (exitFailure exit)

/-- The answers to look-ups that have succeeded, and the processes of those that are under way. -/
structure Npm where
  known : Members Peers := []
  running : Members ProcessId := []

namespace Npm

/-- The arguments of a look-up. -/
def lookupArgs (package : String) : List String := ["show", "--json", package, "peerDependencies"]

/-- The command that installs packages for development. -/
def installCommand (context : Context) (packages : List String) : Command :=
  context.manager ("install" :: "--save-dev" :: packages)

/-- Starts a run that looks a package up. -/
def startRun (context : Context) (package : String) (npm : Npm) :
    Host.Session (Except Failure ProcessId × Npm) := do
  Host.say s!"Checking peer dependencies of '{package}'."
  match ← Host.ask (.start (context.manager (lookupArgs package)) .buffered) with
  | .error e => return (.error (startFailure e), npm)
  | .ok process =>
    return (.ok process, { npm with running := Members.set npm.running package process })

/-- Starts a look-up, unless the answer is known or a look-up of the package is under way. -/
def startLookup (context : Context) (package : String) (npm : Npm) :
    Host.Session (Except Failure Unit × Npm) :=
  if Members.has npm.known package || Members.has npm.running package then pure (.ok (), npm)
  else do
    let (started, npm) ← startRun context package npm
    return (started.map fun _ => (), npm)

/-- Waits for the run that looks a package up, and remembers the answer if there is one. -/
def finishRun (package : String) (process : ProcessId) (npm : Npm) :
    Host.Session (Except Failure Peers × Npm) := do
  let (exit, output) ← Host.ask (.wait process)
  let npm := { npm with running := Members.erase npm.running package }
  match concludeLookup package exit output with
  | .error f => return (.error f, npm)
  | .ok peers => return (.ok peers, { npm with known := Members.set npm.known package peers })

/-- The answer to a look-up.  If it is neither known nor under way, because the last look-up failed,
the package is looked up again. -/
def awaitLookup (context : Context) (package : String) (npm : Npm) :
    Host.Session (Except Failure Peers × Npm) :=
  match Members.get? npm.known package, Members.get? npm.running package with
  | some peers, _ => pure (.ok peers, npm)
  | none, some process => finishRun package process npm
  | none, none => do
    match ← startRun context package npm with
    | (.error f, npm) => return (.error f, npm)
    | (.ok process, npm) => finishRun package process npm

/-- Installs packages for development. -/
def install (context : Context) (packages : List String) : Host.Session (Except Failure Unit) := do
  let command := installCommand context packages
  Host.say command.display
  match ← Host.run command with
  | .error e => return .error (startFailure e)
  | .ok exit => return if exit = .code 0 then .ok () else .error (exitFailure exit)

/-- The answers to what is asked of the package manager of a project. -/
def answer (context : Context) : (r : Request) → Npm → Host.Session (r.Response × Npm)
  | .startLookup package, npm => startLookup context package npm
  | .awaitLookup package, npm => awaitLookup context package npm
  | .install packages, npm => do return (← install context packages, npm)

end Npm
end LintSetup.Packages
