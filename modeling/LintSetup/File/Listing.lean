import LintSetup.File.Ignore
import LintSetup.File.Tree

/-!
# The files that patterns select

A pattern is a path or a glob, seen from the working directory.  A path to a file selects that file.
A path to a directory selects the scripts below it.  Anything else is a glob, and selects the files
below the working directory whose path from there it matches.  Nothing that is ignored is selected,
and no file is listed twice.

Walking a directory takes its entries by name.  Entries whose name starts with a dot and ignored
entries are passed over with everything below them.  Links are not followed, and are no files.

* `Node.filesAt` --- the files of a walk;
* `select` --- the files that one pattern selects;
* `listFiles` --- the files that patterns select.
-/

namespace LintSetup

namespace Node

/-- Whether one name comes before another or is the same; the order is the one of their bytes. -/
def nameLe (a b : String × List String) : Bool := !(b.1 < a.1)

mutual

/-- The files at a path whose node is given, except what `skip` passes over, in the order of a
walk. -/
def filesAt (skip : String → String → Bool) (path : String) : Node → List String
  | file .. => [path]
  | link _ => []
  | dir entries => ((entryFiles skip path entries).mergeSort nameLe).flatMap (·.2)

/-- The files of each entry of a directory. -/
def entryFiles (skip : String → String → Bool) (path : String) :
    List (String × Node) → List (String × List String)
  | [] => []
  | (name, n) :: rest =>
    (name, if skip name (Path.join path name) then [] else filesAt skip (Path.join path name) n) ::
      entryFiles skip path rest

end

end Node

namespace Listing

/-- The name of the file with the ignore lines. -/
def ignoreFile : String := ".eslintignore"

/-- The lines that hold without any file. -/
def standardLines : List String := ["node_modules/", "bower_components/"]

/-- The ignore rules of a directory with the warnings: the standard lines, and the lines of its
ignore file if there is one. -/
def rulesOf (root : Node) (cwd : String) : List String × Except Failure IgnoreRules :=
  let path := Path.join cwd ignoreFile
  if root.isFile path then
    match root.readText path with
    | .error e => ([], .error (.during (.readFile path) (.io e)))
    | .ok text => IgnoreRules.ofLines (standardLines ++ Text.lines text)
  else IgnoreRules.ofLines standardLines

/-- Whether a walk passes over an entry. -/
def skips (rules : IgnoreRules) (cwd name path : String) : Bool :=
  name.toList.head? == some '.' || rules.ignores (Path.relativeTo cwd path)

/-- The files of a walk that starts at a path. -/
def walk (root : Node) (rules : IgnoreRules) (cwd path : String) : List String :=
  match root.lookup path with
  | .ok n => n.filesAt (skips rules cwd) path
  | .error _ => []

/-- Whether a path ends in a name with the extension of scripts. -/
def isScript (path : String) : Bool :=
  match ((Path.steps path).getLast?.getD "").toList.reverse with
  | 's' :: 'j' :: '.' :: _ :: _ => true
  | _ => false

/-- A pattern without the dot steps at its start. -/
def withoutDots : List Char → List Char
  | '.' :: '/' :: rest => withoutDots rest
  | cs => cs

/-- The files that a pattern selects. -/
def select (root : Node) (rules : IgnoreRules) (cwd pattern : String) :
    Except Failure (List String) :=
  let target := Path.join cwd pattern
  if root.isFile target then
    .ok (if rules.ignores (Path.relativeTo cwd target) then [] else [target])
  else if root.isDir target then .ok ((walk root rules cwd target).filter isScript)
  else
    match Glob.parse? (String.ofList (withoutDots pattern.toList)) with
    | none => .error (.during (.parseFilePattern pattern) (.malformed .glob))
    | some g =>
      .ok ((walk root rules cwd cwd).filter fun path => g.matchesPath (Path.relativeTo cwd path))

/-- A list of files with those of another list that it lacks. -/
def addNew (files more : List String) : List String :=
  more.foldl (fun files path => if files.any (Path.same path) then files else files ++ [path]) files

/-- The files that patterns select, after those that are listed already. -/
def selectAll (root : Node) (rules : IgnoreRules) (cwd : String) :
    List String → List String → Except Failure (List String)
  | files, [] => .ok files
  | files, pattern :: rest =>
    match select root rules cwd pattern with
    | .error f => .error f
    | .ok found => selectAll root rules cwd (addNew files found) rest

end Listing

/-- The files that patterns select below a working directory, in the order of the patterns, with the
warnings about ignore lines. -/
def listFiles (root : Node) (cwd : String) (patterns : List String) :
    List String × Except Failure (List String) :=
  match Listing.rulesOf root cwd with
  | (warnings, .error f) => (warnings, .error f)
  | (warnings, .ok rules) => (warnings, Listing.selectAll root rules cwd [] patterns)

end LintSetup
