import LintSetup.Project.Installation
import LintSetup.Project.Settings

/-!
# The project that is set up

What the steps of the set-up know about the project: its directory, the nearest `package.json` and
its settings.
-/

namespace LintSetup

/-- A project. -/
structure Context where
  directory : String
  packageJson : Option String := none
  settings : ProjectSettings := {}
  deriving DecidableEq, Repr

namespace Context

/-- The project in a directory. -/
def load (files : Node) (directory : String) : Except Failure Context :=
  (ProjectSettings.load files directory).map fun settings =>
    { directory, packageJson := findUp files directory "package.json", settings }

/-- Whether the project has a `package.json`. -/
def hasPackageJson (c : Context) : Bool := c.packageJson.isSome

/-- The path of the project's configuration file with an extension. -/
def configPath (c : Context) (extension : String) : String :=
  Path.join c.directory (".eslintrc" ++ extension)

/-- A command of the package manager in the project. -/
def manager (c : Context) (args : List String) : Command :=
  { program := c.settings.program, args, directory := c.directory }

end Context
end LintSetup
