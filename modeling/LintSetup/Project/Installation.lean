import LintSetup.File.Tree
import LintSetup.Machine.Host

/-!
# Installations of the linter

The linter that a project works with is looked for in three places, in this order: among the
packages of the directory or of one above it; as a checkout of the linter's own repository, which is
only looked for up to the first directory with a `package.json`; and among the programs on the
search path, where the running program itself does not count, whatever links lead to it.

* `findUp` --- a file in a directory or the nearest one above it;
* `Installation` --- where the linter was found;
* `Installation.find?` --- the search;
* `Installation.command` --- how to run what was found.
-/

namespace LintSetup

/-- The path of a file, given by a relative path, in a directory or in the nearest one above it. -/
def findUp (files : Node) (start relative : String) : Option String :=
  ((Path.ancestors start).map (Path.join · relative)).find? files.isFile

/-- Where the linter was found. -/
inductive Installation where
  /-- Among the packages of the project or of a directory above it. -/
  | localPackage (bin : String)
  /-- In a checkout of its own repository. -/
  | repository (bin : String)
  /-- On the search path. -/
  | onPath (bin : String)
  deriving DecidableEq, Repr

namespace Installation

/-- The linter's file. -/
def bin : Installation → String
  | localPackage bin | repository bin | onPath bin => bin

/-- The entry point of the linter among the packages of a directory or of one above it. -/
def findLocal? (files : Node) (start : String) : Option String :=
  findUp files start "node_modules/eslint/bin/eslint.js"

/-- The directory of the linter's package. -/
def findPackage? (files : Node) (start : String) : Option String :=
  ((findLocal? files start).bind Path.parent?).bind Path.parent?

/-- The entry point in the first of some directories that has one; the search ends after a directory
with a `package.json`. -/
def firstCheckout? (files : Node) : List String → Option String
  | [] => none
  | directory :: rest =>
    let bin := Path.join (Path.join directory "bin") "eslint.js"
    if files.isFile bin then some bin
    else if files.isFile (Path.join directory "package.json") then none
    else firstCheckout? files rest

/-- The entry point of a checkout of the linter's repository. -/
def findRepository? (files : Node) (start : String) : Option String :=
  firstCheckout? files (Path.ancestors start)

/-- Whether a path leads to a file that can be run. -/
def isProgram (files : Node) (path : String) : Bool :=
  match files.lookup path with
  | .ok (.file _ executable) => executable
  | _ => false

/-- Whether a path leads to the running program. -/
def isSelf (files : Node) (self : Option String) (path : String) : Bool :=
  match files.canonical? path with
  | some place => self.bind files.canonical? == some place
  | none => false

/-- The first linter on the search path other than the running program. -/
def findOnPath? (files : Node) (searchPath : List String) (self : Option String) : Option String :=
  (searchPath.map (Path.join · "eslint")).find? fun path =>
    isProgram files path && !isSelf files self path

/-- The installation to use in a directory. -/
def find? (files : Node) (searchPath : List String) (self : Option String) (start : String) :
    Option Installation :=
  ((findLocal? files start).map localPackage).or
    (((findRepository? files start).map repository).or
      ((findOnPath? files searchPath self).map onPath))

/-- The command that runs an installation.  An entry point is run by `node`, a program by itself. -/
def command (directory : String) (args : List String) : Installation → Command
  | localPackage bin => { program := "node", args := bin :: args, directory }
  | repository bin => { program := "node", args := bin :: args, directory }
  | onPath bin => { program := bin, args, directory }

end Installation
end LintSetup
