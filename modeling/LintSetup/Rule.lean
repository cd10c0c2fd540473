import LintSetup.Json.Record

/-!
# Rules and violations

A rule of the linter has an identifier and an option schema, and may be deprecated or part of the
recommended set.  A violation is what the linter reports about a source text: which rule it is from,
where it is, and whether the text could not be parsed at all.  Both are read from JSON records.
-/

namespace LintSetup

/-- What is known about a rule. -/
structure Rule where
  id : String
  schema : Json := .null
  deprecated : Bool := false
  recommended : Bool := false

namespace Rule

/-- The names of the fields in their order. -/
def fieldNames : List String := ["id", "schema", "deprecated", "recommended"]

/-- A rule from a record; only the identifier has to be there. -/
def ofJson? (v : Json) : Option Rule := do
  let fields ← v.fields? fieldNames
  let id ← (Members.get? fields "id").bind Json.str?
  let schema ← Json.field? fields "schema" .null some
  let deprecated ← Json.field? fields "deprecated" false Json.bool?
  let recommended ← Json.field? fields "recommended" false Json.bool?
  return { id, schema, deprecated, recommended }

/-- The record of a rule. -/
def toJson (r : Rule) : Json :=
  .obj [("id", .str r.id), ("schema", r.schema), ("deprecated", .bool r.deprecated),
    ("recommended", .bool r.recommended)]

/-- The rules of a list of records. -/
def catalogOfJson? (v : Json) : Option (List Rule) := v.items?.bind (·.mapM ofJson?)

/-- A record that was written is read as the rule it was written from. -/
theorem ofJson?_toJson (r : Rule) : ofJson? r.toJson = some r := rfl

end Rule

/-- A problem that the linter reports. -/
structure Violation where
  ruleId : Option String := none
  fatal : Bool := false
  message : String := ""
  line : Nat := 0
  column : Nat := 0
  deriving DecidableEq

namespace Violation

/-- The names of the fields in their order. -/
def fieldNames : List String := ["ruleId", "fatal", "message", "line", "column"]

/-- The bound of a line or column number. -/
def positionBound : Nat := Nat.pow 2 32

/-- A violation from a record; every field may be missing. -/
def ofJson? (v : Json) : Option Violation := do
  let fields ← v.fields? fieldNames
  let ruleId ← Json.field? fields "ruleId" none Json.optionalStr?
  let fatal ← Json.field? fields "fatal" false Json.bool?
  let message ← Json.field? fields "message" "" Json.str?
  let line ← Json.field? fields "line" 0 (Json.natBelow? positionBound)
  let column ← Json.field? fields "column" 0 (Json.natBelow? positionBound)
  return { ruleId, fatal, message, line, column }

/-- The record of a violation. -/
def toJson (v : Violation) : Json :=
  .obj [("ruleId", (v.ruleId.map Json.str).getD .null), ("fatal", .bool v.fatal),
    ("message", .str v.message), ("line", .ofNat v.line), ("column", .ofNat v.column)]

end Violation
end LintSetup
