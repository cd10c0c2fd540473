import LintSetup.Json.Basic

/-!
# Records as JSON values

A record with known fields is read from an object, in which other keys do not matter, or from the
list of its fields in their order, of which fields at the end may be missing.
-/

namespace LintSetup.Json

/-- The fields of a record by name. -/
def fields? (names : List String) : Json → Option (Members Json)
  | obj members => some members
  | arr items => if items.length ≤ names.length then some (names.zip items) else none
  | _ => none

/-- A field that may be missing: `standard` is its value then.  A value that `read` does not accept
is refused. -/
def field? {α : Type} (fields : Members Json) (name : String) (standard : α)
    (read : Json → Option α) : Option α :=
  match Members.get? fields name with
  | none => some standard
  | some v => read v

/-- A text or nothing. -/
def optionalStr? : Json → Option (Option String)
  | null => some none
  | str s => some (some s)
  | _ => none

/-- A whole number below a bound. -/
def natBelow? (bound : Nat) (v : Json) : Option Nat :=
  v.nat?.bind fun n => if n < bound then some n else none

end LintSetup.Json
