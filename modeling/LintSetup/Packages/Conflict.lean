import LintSetup.Json.Parse
import LintSetup.Packages.Required
import LintSetup.Version.Parse

/-!
# Conflicting versions of the linter

A project states in its `package.json` which versions of the linter it works with, and the packages
that a configuration needs may demand others.  The two are in conflict if both are version ranges
and no version is in both.

* `localRange?` --- the range that a project states;
* `demandedRange?` --- the range that packages demand;
* `Conflict.of?` --- the conflict between the two.
-/

namespace LintSetup.Packages

/-- The version range of the linter that the text of a `package.json` states among the development
dependencies, if it states one.  A blank text states nothing; `path` is where the text is from. -/
def localRange? (path text : String) : Except Failure (Option String) :=
  let text := Text.trim text
  if text.isEmpty then .ok none
  else
    match Json.parse? text with
    | none => .error (.during (.parseJson path) (.malformed .json))
    | some data =>
      let stated := (data.get? "devDependencies").bind (·.get? linterName)
      .ok ((stated.bind Json.str?).filter Range.isValid)

/-- The version range of the linter on a list of packages: the one of the first entry for it, if
that is a range. -/
def demandedRange? (packages : List String) : Option String :=
  (packages.findSome? (Text.afterStart? (linterName ++ "@"))).filter Range.isValid

/-- Two version ranges of the linter that no version is in: the one that is demanded, and the one
that the project has. -/
structure Conflict where
  expected : String
  actual : String
  deriving DecidableEq, Repr

/-- The conflict between the range that a project states and a list of packages. -/
def Conflict.of? (actual : String) (packages : List String) : Option Conflict :=
  (demandedRange? packages).bind fun expected =>
    if Range.textsIntersect actual expected then none else some ⟨expected, actual⟩

end LintSetup.Packages
