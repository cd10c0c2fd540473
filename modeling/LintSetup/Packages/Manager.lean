import LintSetup.Dialogue
import LintSetup.Failure
import LintSetup.Json.Basic

/-!
# The package manager as a conversation partner

A package manager knows the peer dependencies of packages and installs packages.  A look-up takes
time, so it is started first and waited for later; several of them may be under way at once.  Each
of the two steps can fail.
-/

namespace LintSetup.Packages

/-- The names of packages with their version ranges, which are texts unless a package was published
with something else. -/
abbrev Peers := Members Json

/-- What is asked of a package manager.  A package is named with its version, as in `eslint@latest`.
-/
inductive Request where
  | startLookup (package : String)
  | awaitLookup (package : String)
  | install (packages : List String)

/-- The type of the answer to each request. -/
def Request.Response : Request → Type
  | startLookup _ => Except Failure Unit
  | awaitLookup _ => Except Failure Peers
  | install _ => Except Failure Unit

/-- The conversation with a package manager. -/
def Manager : Interface := ⟨Request, Request.Response⟩

/-- A conversation with a package manager that may fail. -/
abbrev Session (α : Type) := ExceptT Failure (Dialogue Manager) α

/-- Starts to look up the peer dependencies of a package. -/
def startLookup (package : String) : Session Unit := Dialogue.ask (I := Manager) (.startLookup package)

/-- Waits for the peer dependencies of a package. -/
def awaitLookup (package : String) : Session Peers := Dialogue.ask (I := Manager) (.awaitLookup package)

/-- Installs packages. -/
def install (packages : List String) : Session Unit := Dialogue.ask (I := Manager) (.install packages)

end LintSetup.Packages
