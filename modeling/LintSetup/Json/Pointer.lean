import LintSetup.Json.Basic
import LintSetup.Json.Parse
import LintSetup.Text.Blank

/-!
# Pointers into a JSON value

A pointer is a text that names a place in a value: empty for the value itself, and otherwise a slash
before each step.  A step is a key of an object or an index of a list.  In a step `~1` stands for a
slash and `~0` for a tilde; any other tilde stands for itself.
-/

namespace LintSetup.Json

open Text (isDigit)

/-- A step with its escapes replaced. -/
def unescapeStep : List Char → List Char
  | '~' :: '1' :: rest => '/' :: unescapeStep rest
  | '~' :: '0' :: rest => '~' :: unescapeStep rest
  | c :: rest => c :: unescapeStep rest
  | [] => []

/-- The index that a step names: digits without a sign and without a leading nought. -/
def indexOf? (step : List Char) : Option Nat :=
  if step.isEmpty || !step.all isDigit || (step.head? == some '0' && step.length != 1) then none
  else some (Number.valueOf step)

/-- One step into a value. -/
def step? (v : Json) (step : List Char) : Option Json :=
  match v with
  | obj members => Members.get? members (String.ofList step)
  | arr items => (indexOf? step).bind (items[·]?)
  | _ => none

/-- The value at a pointer. -/
def at? (v : Json) (pointer : List Char) : Option Json :=
  match pointer with
  | [] => some v
  | '/' :: rest => (Text.cutAt '/' rest).foldlM (fun v s => v.step? (unescapeStep s)) v
  | _ => none

end LintSetup.Json
