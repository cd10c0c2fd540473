import LintSetup.Text.Quoted

/-!
# Failures

A failure says what went wrong at its root and what was being attempted, the outermost attempt
first.  Both are data; the wording is in `Attempt.message` and `Cause.message`, and nowhere else.

* `IoError` --- a file or process operation that the system refused;
* `Attempt` --- something that was being attempted;
* `Cause` --- what went wrong;
* `Failure` --- a cause with the attempts around it; `Failure.texts` is its wording, outermost
  first, and `Failure.chain` the same in one line.
-/

namespace LintSetup

/-- The kinds of refused operations that can be told apart. -/
inductive IoKind where
  | notFound
  | permissionDenied
  | isADirectory
  | notADirectory
  | linkLoop
  | nameTooLong
  | invalidData
  | brokenPipe
  | unclassified
  | other
  deriving DecidableEq, Repr

/-- A refused operation, with the text that the system gives for it. -/
structure IoError where
  kind : IoKind
  message : String
  deriving DecidableEq, Repr

namespace IoError

/-- There is no such file. -/
def notFound : IoError := ⟨.notFound, "No such file or directory (os error 2)"⟩

/-- The file may not be used in this way. -/
def permissionDenied : IoError := ⟨.permissionDenied, "Permission denied (os error 13)"⟩

/-- A directory stands where a file is needed. -/
def isADirectory : IoError := ⟨.isADirectory, "Is a directory (os error 21)"⟩

/-- A file stands where a directory is needed. -/
def notADirectory : IoError := ⟨.notADirectory, "Not a directory (os error 20)"⟩

/-- Too many links were followed. -/
def linkLoop : IoError := ⟨.linkLoop, "Too many levels of symbolic links (os error 40)"⟩

/-- A name is longer than the system admits. -/
def nameTooLong : IoError := ⟨.nameTooLong, "File name too long (os error 36)"⟩

/-- The bytes are not the UTF-8 form of a text. -/
def invalidText : IoError := ⟨.invalidData, "stream did not contain valid UTF-8"⟩

/-- The reader of a pipe has gone. -/
def brokenPipe : IoError := ⟨.brokenPipe, "Broken pipe (os error 32)"⟩

/-- A file that may be executed is no program. -/
def notAProgram : IoError := ⟨.unclassified, "Exec format error (os error 8)"⟩

end IoError

/-- Something that was being attempted. -/
inductive Attempt where
  | readFile (path : String)
  | openFile (path : String)
  | writeFile (path : String)
  | parseJson (path : String)
  | openSettings (path : String)
  | parseSettings (path : String)
  | parseIgnoreLine (line : String)
  | parseFilePattern (pattern : String)
  | runCommand (display : String)
  | runNpm
  | readPeers (package : String)
  | startNode
  | writeBridge
  | readBridge
  | readBridgeResult (op : String)
  | step (text : String)
  deriving DecidableEq, Repr

/-- The wording of an attempt. -/
def Attempt.message : Attempt → String
  | readFile path => s!"failed to read {path}"
  | openFile path => s!"can not open {path}"
  | writeFile path => s!"failed to write {path}"
  | parseJson path => s!"invalid JSON in {path}"
  | openSettings path => s!"can not open settings file: {path}"
  | parseSettings path => s!"invalid settings file: {path}"
  | parseIgnoreLine line => s!"invalid ignore pattern: {Text.quoted line}"
  | parseFilePattern pattern => s!"invalid file pattern: {Text.quoted pattern}"
  | runCommand display => s!"failed to execute: {display}"
  | runNpm => "failed to execute npm"
  | readPeers package => s!"unexpected `npm show` output for '{package}'"
  | startNode => "failed to start `node`"
  | writeBridge => "failed to write to the ESLint bridge"
  | readBridge => "failed to read from the ESLint bridge"
  | readBridgeResult op => s!"unexpected '{op}' result"
  | step text => text

/-- The formats that a text may fail to be in. -/
inductive Format where
  | json
  | toml
  | glob
  deriving DecidableEq, Repr

/-- What went wrong. -/
inductive Cause where
  | io (error : IoError)
  | malformed (format : Format)
  | packageJsonMissing
  | npmMissing
  | npmExit (code : Int)
  | noObject (text : String)
  | noLocalLinter (directory : String)
  | bridgeExited (op : String)
  | bridgeRefused (op : String) (reason : String)
  | said (text : String)
  deriving DecidableEq, Repr

/-- The message for a missing `package.json`. -/
def packageJsonMissingText : String :=
  "\nThe file 'package.json' was not found.\n" ++
  "It's required in order to manage dependent packages such as config preset.\n\n" ++
  "Please do 'npm init' before 'eslint --init'.\n\n" ++
  "Further reading: https://docs.npmjs.com/cli/init\n"

/-- The message for a missing `npm`. -/
def npmMissingText : String :=
  "\nThe CLI command 'npm' was not found.\n" ++
  "It's required in order to manage dependent packages such as plugins/configs.\n\n" ++
  "Please ensure Node.js is installed correctly.\n"

/-- The wording of a cause.  What a format's reader found wrong is not part of it. -/
def Cause.message : Cause → String
  | io e => e.message
  | malformed .json => "malformed JSON"
  | malformed .toml => "malformed TOML"
  | malformed .glob => "malformed glob"
  | packageJsonMissing => packageJsonMissingText
  | npmMissing => npmMissingText
  | npmExit code => s!"npm exited with non-zero code: {code}"
  | noObject text => s!"expected an object, got {text}"
  | noLocalLinter directory => s!"Cannot find local ESLint in '{directory}'"
  | bridgeExited op => s!"the ESLint bridge exited while handling '{op}'"
  | bridgeRefused op reason => s!"ESLint bridge '{op}' failed: {reason}"
  | said text => text

/-- What went wrong, and what was being attempted, outermost first. -/
structure Failure where
  attempts : List Attempt
  cause : Cause
  deriving DecidableEq, Repr

namespace Failure

/-- A failure by itself. -/
def of (cause : Cause) : Failure := ⟨[], cause⟩

/-- A failure while something was being attempted. -/
def during (attempt : Attempt) (cause : Cause) : Failure := ⟨[attempt], cause⟩

/-- The wording of a failure, outermost attempt first. -/
def texts (f : Failure) : List String := f.attempts.map Attempt.message ++ [f.cause.message]

/-- The wording of a failure in one line. -/
def chain (f : Failure) : String := ": ".intercalate f.texts

end Failure
end LintSetup
