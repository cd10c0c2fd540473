import LintSetup.Failure
import LintSetup.File.Path
import LintSetup.Members
import LintSetup.Text.Utf8

/-!
# File trees

A disk is a value: a tree of directories, files and symbolic links.  A file has its bytes and may be
executable; a link has a text that is a path seen from the directory of the link.

* `Node` --- the tree;
* `Node.resolve` --- the real place of a path, following links, of which at most forty may be met;
* `Node.isFile`, `Node.isDir`, `Node.readText` --- asking about a path;
* `Node.write` --- the tree in which a file has other bytes;
* `Node.plant`, `Node.makeDir` --- the tree in which something stands at a path.
-/

namespace LintSetup

open Text (Bytes)

/-- A file, a link or a directory. -/
inductive Node where
  | file (content : Bytes) (executable : Bool)
  | link (target : String)
  | dir (entries : List (String × Node))
  deriving Inhabited

namespace Node

/-- The empty directory. -/
def emptyDir : Node := dir []

/-- The entry of a directory. -/
def entry? : Node → String → Option Node
  | dir entries, name => Members.get? entries name
  | _, _ => none

/-- The node at names from the root, without following links. -/
def at? (root : Node) (names : List String) : Option Node := names.foldlM entry? root

/-- The number of links that a path may lead through. -/
def maxLinks : Nat := 40

/-- The steps of a link, and where they start from: the root if the target is absolute. -/
def linkSteps (target : String) (here : List String) : List String × List String :=
  (Path.steps target, if Path.isAbsolute target then [] else here)

/-- The real names, from the root, that steps lead to from real names `here`.  A step into something
that is no directory fails, and so does a step to an entry that does not exist.  A link is followed
unless it is the last step and `followLast` is false. -/
def walkSteps (root : Node) (followLast : Bool) (links : Nat) (here : List String)
    (steps : List String) : Except IoError (List String) :=
  match steps with
  | [] => .ok here
  | step :: rest =>
    match root.at? here with
    | some (dir entries) =>
      if step == "" || step == "." then walkSteps root followLast links here rest
      else if step == ".." then walkSteps root followLast links here.dropLast rest
      else
        match Members.get? entries step with
        | none => .error .notFound
        | some (link target) =>
          if rest.isEmpty && !followLast then .ok (here ++ [step])
          else
            match links with
            | 0 => .error .linkLoop
            | links + 1 =>
              let (steps, from') := linkSteps target here
              walkSteps root followLast links from' (steps ++ rest)
        | some _ => walkSteps root followLast links (here ++ [step]) rest
    | some _ => .error .notADirectory
    | none => .error .notFound
termination_by (links, steps.length)

/-- The real names of an absolute path. -/
def resolve (root : Node) (path : String) : Except IoError (List String) :=
  walkSteps root true maxLinks [] (Path.steps path)

/-- The path of real names. -/
def pathOf (names : List String) : String := Path.ofSteps true names

/-- The path without links. -/
def canonical? (root : Node) (path : String) : Option String :=
  (root.resolve path).toOption.map pathOf

/-- The node that a path leads to. -/
def lookup (root : Node) (path : String) : Except IoError Node :=
  match root.resolve path with
  | .error e => .error e
  | .ok names =>
    match root.at? names with
    | some n => .ok n
    | none => .error .notFound

/-- Whether a path leads to a file. -/
def isFile (root : Node) (path : String) : Bool :=
  match root.lookup path with
  | .ok (file ..) => true
  | _ => false

/-- Whether a path leads to a directory. -/
def isDir (root : Node) (path : String) : Bool :=
  match root.lookup path with
  | .ok (dir _) => true
  | _ => false

/-- The bytes of the file that a path leads to. -/
def readBytes (root : Node) (path : String) : Except IoError Bytes :=
  match root.lookup path with
  | .error e => .error e
  | .ok (file content _) => .ok content
  | .ok _ => .error .isADirectory

/-- The text of the file that a path leads to. -/
def readText (root : Node) (path : String) : Except IoError String :=
  match root.readBytes path with
  | .error e => .error e
  | .ok bytes =>
    match Text.decode? bytes with
    | some s => .ok s
    | none => .error .invalidText

/-- The tree in which another node stands at names from the root.  Directories on the way are made
as needed. -/
def put (n : Node) : List String → Node → Node
  | [], _ => n
  | name :: rest, dir entries =>
    dir (Members.set entries name (put n rest ((Members.get? entries name).getD emptyDir)))
  | name :: rest, _ => dir [(name, put n rest emptyDir)]

/-- The real names at which a file can be written: what a path leads to, or a new name in a
directory that exists. -/
def writePlace (root : Node) (links : Nat) (here : List String) (steps : List String) :
    Except IoError (List String) :=
  match steps.getLast? with
  | none => .error .isADirectory
  | some last =>
    match walkSteps root true maxLinks here steps.dropLast with
    | .error e => .error e
    | .ok parent =>
      match root.at? parent with
      | some (dir entries) =>
        if last == "" || last == "." || last == ".." then .error .isADirectory
        else
          match Members.get? entries last with
          | some (link target) =>
            match links with
            | 0 => .error .linkLoop
            | links + 1 =>
              let (steps, from') := linkSteps target parent
              writePlace root links from' steps
          | some (dir _) => .error .isADirectory
          | _ => .ok (parent ++ [last])
      | some _ => .error .notADirectory
      | none => .error .notFound
termination_by links

/-- Whether the file at real names is executable. -/
def isExecutable (root : Node) (names : List String) : Bool :=
  match root.at? names with
  | some (file _ executable) => executable
  | _ => false

/-- The tree in which the file that a path leads to has given bytes.  A new file is not executable,
and an old one stays what it was. -/
def write (root : Node) (path : String) (content : Bytes) : Except IoError Node :=
  match writePlace root maxLinks [] (Path.steps path) with
  | .error e => .error e
  | .ok names => .ok (put (file content (root.isExecutable names)) names root)

/-- The real names that names lead to from real names `here`, following links.  From the first name
on that does not exist they are as written. -/
def placeFrom (root : Node) : List String → List String → List String
  | [], here => here
  | name :: rest, here =>
    match root.resolve (pathOf (here ++ [name])) with
    | .ok names => placeFrom root rest names
    | .error _ => here ++ name :: rest

/-- The tree in which a node stands where an absolute path leads.  What does not exist on the way is
made. -/
def plant (n : Node) (path : String) (root : Node) : Node :=
  put n (placeFrom root ((Path.components path).drop 1) []) root

/-- The tree in which there is a directory where an absolute path leads. -/
def makeDir (path : String) (root : Node) : Node :=
  if root.isDir path then root else plant emptyDir path root

end Node
end LintSetup
