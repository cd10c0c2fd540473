import LintSetup.Bridge.Query
import LintSetup.Bridge.Script
import LintSetup.File.Listing
import LintSetup.Inspection.Run
import LintSetup.Machine.Host
import LintSetup.Project.Installation

/-!
# The linter as a process

The linter of a project runs as a process that is started in the project's directory.  Every query
gets the next number, whether the ones before it succeeded or not.  Of what an inspection asks for,
the process answers what is about rules and violations; files are listed and read on the machine
itself.

* `command`, `start`, `open?` --- starting the process;
* `query` --- a query to the process;
* `answer` --- the answers to an inspection;
* `inspect` --- an inspection by the linter of a project;
* `fix` --- a text mended by the linter of a project.
-/

namespace LintSetup.Bridge

/-- A process that runs the linter, and the number of the last request to it. -/
structure Link where
  process : ProcessId
  lastId : Nat := 0

/-- The command that runs the linter of a package in a directory. -/
def command (package directory : String) : Command :=
  { program := "node"
    args := ["-e", script]
    directory
    environment := [(packageVariable, package)] }

/-- Starts the linter of a package in a directory. -/
def start (package directory : String) : Host.Session (Except Failure Link) := do
  match ← Host.ask (.start (command package directory) .piped) with
  | .error e => return .error (.during .startNode (.io e))
  | .ok process => return .ok { process }

/-- Starts the linter of the project in a directory. -/
def open? (directory : String) : Host.Session (Except Failure Link) := do
  match Installation.findPackage? (← Host.ask .files) directory with
  | none => return .error (.of (.noLocalLinter directory))
  | some package => start package directory

/-- Ends the process. -/
def close (link : Link) : Host.Session Unit := Host.ask (.kill link.process)

/-- Sends and receives lines over the pipes of a process. -/
def onProcess (process : ProcessId) : (r : Channel.Request) → Host.Session r.Response
  | .send line => Host.ask (.send process line)
  | .receive stop => Host.ask (.receive process stop)

/-- A query under the next number. -/
def query {α : Type} (q : Query α) (link : Link) : Host.Session (Except Failure α × Link) := do
  let id := link.lastId + 1
  let result ← (q.run id).through (onProcess link.process)
  return (result, { link with lastId := id })

/-- Prints warnings one after another. -/
def warnAll : List String → Host.Session Unit
  | [] => pure ()
  | message :: rest => do
    Host.ask (.warn message)
    warnAll rest

/-- The answers to an inspection in a directory, for a display of progress. -/
def answer (directory : String) (display : Inspection.Display) :
    (r : Inspection.Request) → Link → Host.Session (r.Response × Link)
  | .rules, link => query Query.rules link
  | .effectiveConfig base, link => query (Query.effectiveConfig base) link
  | .listFiles patterns, link => do
    let (warnings, files) := listFiles (← Host.ask .files) directory patterns
    warnAll warnings
    return (files, link)
  | .read path, link => do
    let files ← Host.ask .files
    return (⟨0, files.readText path⟩, link)
  | .verify text handle config path, link => query (Query.verify text handle config path) link
  | .release handle, link => do
    let (_, link) ← query (Query.release handle) link
    return ((), link)
  | .started _, link => do
    Host.ask (.print display.opening)
    return ((), link)
  | .ticked, link => return ((), link)
  | .finished, link => return ((), link)
  | .warn message, link => do
    Host.ask (.warn message)
    return ((), link)

/-- An inspection by the linter of the project in a directory. -/
def inspect (directory : String) (settings : Inspection.Settings) (base : Config)
    (patterns : List String) :
    Host.Session (Except Failure (Except Inspection.InspectError Inspection.Outcome)) := do
  match ← open? directory with
  | .error f => return .error f
  | .ok link =>
    let (result, link) ← (Inspection.inspectFiles settings base patterns).throughWith
      (answer directory (settings.display false)) link
    close link
    return .ok result

/-- A text as the linter of the project in a directory mends it, or nothing if there is nothing to
mend. -/
def fix (directory text : String) (config : Config) :
    Host.Session (Except Failure (Option String)) := do
  match ← open? directory with
  | .error f => return .error f
  | .ok link =>
    let (result, link) ← query (Query.fix text config) link
    close link
    return result

end LintSetup.Bridge
