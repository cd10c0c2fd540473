import LintSetup.CommandLine.Run

/-!
# The program

Everything that is decided is decided by `CommandLine.run`; here its requests are carried out on the
machine that the program runs on.  Of the files of that machine the program is shown those that it
looks for: the ones that mark a project or an installation of the linter, in the working directory
and above it, and the programs on the search path.  Programs are not started from here, so handing
over to the linter is reported as a failure.
-/

namespace LintSetup.CommandLine

/-- The files that mark a project or an installation, seen from a directory. -/
def markers : List String :=
  ["package.json", ProjectSettings.fileName, "bin/eslint.js", "node_modules/eslint/bin/eslint.js"]

/-- The paths of files that are looked for. -/
def watchedPaths (directory : String) (searchPath : List String) : List String :=
  (Path.ancestors directory).flatMap (fun d => markers.map (Path.join d)) ++
    searchPath.map (Path.join · Packages.linterName)

/-- A tree with a file in it, which may have been reached by links. -/
def withFile (content : Text.Bytes) (path place : String) (files : Node) : Node :=
  let files := Node.plant (.file content true) place files
  if path = place then files else Node.plant (.link place) path files

/-- What an attempt of the machine comes to. -/
def attempted {α : Type} (action : IO α) : IO (Except IoError α) := do
  try
    return .ok (← action)
  catch e =>
    return .error ⟨.other, ToString.toString e⟩

/-- The tree of those files at paths that can be read. -/
def readFiles : List String → Node → IO Node
  | [], files => return files
  | path :: rest, files => do
    match ← attempted (IO.FS.readBinFile path) with
    | .error _ => readFiles rest files
    | .ok content =>
      let place := (← attempted (IO.FS.realPath path)).toOption.map (·.toString)
      readFiles rest (withFile content.toList path (place.getD path) files)

/-- The failure to start a program. -/
def notStarted : IoError := ⟨.other, "programs are not started from here"⟩

/-- Carries a request to the machine out. -/
def carryOut (directory : String) (searchPath : List String) :
    (r : Host.Request) → IO r.Response
  | .files => readFiles (watchedPaths directory searchPath) (Node.makeDir directory .emptyDir)
  | .searchPath => return searchPath
  | .ownProgram => return (← attempted IO.appPath).toOption.map (·.toString)
  | .write path text => attempted (IO.FS.writeFile path text)
  | .print text => do (← IO.getStdout).putStr text
  | .complain text => do (← IO.getStderr).putStr text
  | .warn message => do (← IO.getStderr).putStr (message ++ "\n")
  | .start .. => return .error notStarted
  | .wait _ => return (.signal, [])
  | .send .. => return .error .brokenPipe
  | .receive .. => return none
  | .kill _ => return ()

/-- Carries a request out.  There is nobody to answer a question. -/
def perform (directory : String) (searchPath : List String) :
    (r : Terminal.Request) → IO r.Response
  | .question q => return .error (.of (.said s!"no answer for '{q.message}'"))
  | .host r => carryOut directory searchPath r

end LintSetup.CommandLine

/-- The program: its exit code is that of the linter, or tells whether the set-up succeeded. -/
def main (args : List String) : IO UInt32 := do
  let directory := (← IO.currentDir).toString
  let searchPath := LintSetup.Text.pieces ':' ((← IO.getEnv "PATH").getD "")
  let code ← (LintSetup.CommandLine.run directory args).runIn
    (LintSetup.CommandLine.perform directory searchPath)
  return UInt32.ofNat code
