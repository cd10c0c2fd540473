import LintSetup.ConfigFile.Format
import LintSetup.Packages.Conflict
import LintSetup.Wizard.Questions

/-!
# Setting a project up

The steps come in a fixed order, and nothing is changed before it is clear that everything that can
be known in advance is all right: the questions come first, then the look-ups of packages, then the
installation, then the inspection if the user asked for one, and the configuration file last.

* `findConflict` --- whether the linter that the project has fits the draft;
* `askFormat` --- the format of the file, and whether to install the linter;
* `installAll` --- the installation;
* `finish` --- the configuration that a draft comes to;
* `save` --- writing the file;
* `setUp` --- all of it.
-/

namespace LintSetup.Wizard

/-- The conflict between the version of the linter that the project states and those that a
configuration needs.  Packages are looked up only if the project states a version range at all. -/
def findConflict (context : Context) (config : Config) : Session (Option Packages.Conflict) := do
  match context.packageJson with
  | none => return none
  | some path =>
    let files ← host (Host.ask .files)
    match (files : Node).readText path with
    | .error e => throw (.failed (.during (.openFile path) (.io e)))
    | .ok text =>
      match Packages.localRange? path text with
      | .error f => throw (.failed f)
      | .ok none => return none
      | .ok (some actual) =>
        let all ← packages (Packages.required config true)
        return Packages.Conflict.of? actual all

/-- The question whether the linter should be installed in the version that the configuration needs.
-/
def conflictMessage (c : Packages.Conflict) : String :=
  s!"It requires 'eslint@{c.expected}', but you are using 'eslint@{c.actual}'.\n" ++
    "  Do you want to install the proper ESLint?"

/-- The format of the configuration file, and whether to install the linter too. -/
structure FormatChoice where
  format : FileFormat
  installLinter : Bool
  deriving DecidableEq, Repr

/-- Asks for the format, and whether to install the linter if there is a conflict; without one it is
installed. -/
def askFormat (context : Context) (config : Config) : Session FormatChoice := do
  let format ← choose "What format do you want your config file to be in?"
    (FileFormat.javaScript.label, .javaScript)
    [(FileFormat.yaml.label, .yaml), (FileFormat.json.label, .json)]
  match ← findConflict context config with
  | none => return { format, installLinter := true }
  | some conflict =>
    return { format, installLinter := ← confirm (conflictMessage conflict) true }

/-- Installs packages, after telling the user which; if there are none, nothing happens. -/
def installAll : List String → Session Unit
  | [] => pure ()
  | all => do
    let listed := String.join (all.map ("\n    " ++ ·))
    host (Host.say ("Installing dependencies:" ++ listed))
    packages (Packages.install all)

/-- The configuration with the rules inferred from the files that patterns select. -/
def inferRules (context : Context) (debug : Bool) (config : Config) (patterns : List String) :
    Session Config := do
  let settings := context.settings.inspection debug
  match ← hostAttempt (Bridge.inspect context.directory settings config patterns) with
  | .error e => throw (.inspection e)
  | .ok inspection =>
    host (Host.say inspection.summary)
    return inspection.config

/-- The configuration that a draft comes to. -/
def finish (context : Context) (debug : Bool) (d : Draft) : Session Config :=
  match d.patterns with
  | none => pure d.config
  | some patterns => inferRules context debug d.config patterns

/-- The text of a configuration file: the linter of the project in the file's directory mends it if
its format is one that it mends. -/
def textFor (path : String) (config : Config) (format : FileFormat) : Host.Session String :=
  let text := format.text config
  if format.isMended then do
    let directory := (Path.parent? path).getD "."
    return mended text (← Bridge.fix directory text config)
  else pure text

/-- Writes a configuration file. -/
def save (path : String) (config : Config) (format : FileFormat) :
    Host.Session (Except Failure Unit) := do
  let text ← textFor path config format
  match ← Host.ask (.write path text) with
  | .error e => return .error (.during (.writeFile path) (.io e))
  | .ok _ => return .ok ()

/-- Sets a project up, and gives the path of its configuration file.  `debug` says whether
inspections are logged in detail. -/
def setUp (context : Context) (debug : Bool) : Session String := do
  if !context.hasPackageJson then throw (.failed (.of .packageJsonMissing))
  let d ← askDraft context.hasPackageJson
  let choice ← askFormat context d.config
  let all ← packages (Packages.required d.config choice.installLinter)
  installAll all
  let config ← finish context debug d
  let path := context.configPath choice.format.extension
  hostAttempt (save path config choice.format)
  return path

end LintSetup.Wizard
