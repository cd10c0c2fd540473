import LintSetup.File.Tree
import LintSetup.Inspection.Run
import LintSetup.Toml.Parse

/-!
# Settings of a project

A project can say how files are inspected and which program the package manager is, in a settings
file in its directory.  Every setting may be missing, and so may the file.

* `ProjectSettings` --- the settings;
* `ProjectSettings.inspection` --- how to inspect with them;
* `ProjectSettings.load` --- the settings of a directory.
-/

namespace LintSetup

/-- The settings of a project. -/
structure ProjectSettings where
  /-- How many files are inspected at the same time. -/
  concurrency : Nat := 8
  /-- How many settings of a rule are tried at most. -/
  maxPatterns : Nat := Options.standardLimit
  /-- Whether progress is shown, if the project says so. -/
  progress : Option Bool := none
  /-- The package manager's program. -/
  program : String := "npm"
  deriving DecidableEq, Repr

namespace ProjectSettings

/-- How to inspect: at least one file at a time, and with progress unless the settings or the debug
log are against it. -/
def inspection (s : ProjectSettings) (debug : Bool) : Inspection.Settings :=
  { concurrency := max s.concurrency 1
    limit := s.maxPatterns
    progress := s.progress.getD (!debug) }

/-- The settings for inspections among given ones, read from a value. -/
def readInspection? (s : ProjectSettings) (v : Toml) : Option ProjectSettings := do
  let fields ← v.fields? ["concurrency", "max_patterns", "progress"]
  let concurrency ← Toml.field? fields "concurrency" s.concurrency Toml.nat?
  let maxPatterns ← Toml.field? fields "max_patterns" s.maxPatterns Toml.nat?
  let progress ← Toml.field? fields "progress" s.progress fun v => v.truth?.map some
  return { s with concurrency, maxPatterns, progress }

/-- The settings for the package manager among given ones, read from a value. -/
def readManager? (s : ProjectSettings) (v : Toml) : Option ProjectSettings := do
  let fields ← v.fields? ["program"]
  let program ← Toml.field? fields "program" s.program Toml.text?
  return { s with program }

/-- The settings that a document states. -/
def ofText? (s : String) : Option ProjectSettings := do
  let root ← Toml.parse? s
  let standard : ProjectSettings := {}
  let settings ← Toml.field? root "inspect" standard (readInspection? standard)
  Toml.field? root "npm" settings (readManager? settings)

/-- The name of the settings file. -/
def fileName : String := ".eslint-cli.toml"

/-- The settings of a directory: the standard ones if it has no settings file. -/
def load (files : Node) (directory : String) : Except Failure ProjectSettings :=
  let path := Path.join directory fileName
  if files.isFile path then
    match files.readText path with
    | .error e => .error (.during (.openSettings path) (.io e))
    | .ok text =>
      match ofText? text with
      | some settings => .ok settings
      | none => .error (.during (.parseSettings path) (.malformed .toml))
  else .ok {}

end ProjectSettings
end LintSetup
