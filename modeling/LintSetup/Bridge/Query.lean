import LintSetup.Bridge.Channel
import LintSetup.Inspection.Linter

/-!
# What the linter's process is asked

A query is an operation with parameters and a reading of its result.

* `Query` --- the queries, and `Query.rules`, `Query.effectiveConfig`, `Query.verify`,
  `Query.release`, `Query.fix`;
* `Query.run` --- a query with a number.
-/

namespace LintSetup.Bridge

/-- An operation with its parameters and the reading of its result. -/
structure Query (α : Type) where
  op : String
  params : Members Json := []
  read? : Json → Option α

namespace Query

/-- The rules that the linter has. -/
def rules : Query (List Rule) :=
  { op := "rules", read? := Rule.catalogOfJson? }

/-- What a configuration amounts to. -/
def effectiveConfig (base : Config) : Query Config :=
  { op := "config", params := [("config", base.toJson)], read? := Config.ofJson? }

/-- The text, or the handle of the text that the process keeps. -/
def sourceParam (text : String) : Option Inspection.Handle → String × Json
  | some handle => ("handle", .ofNat handle)
  | none => ("text", .str text)

/-- A handle or nothing. -/
def readHandle? : Json → Option (Option Inspection.Handle)
  | .null => some none
  | v => (Json.natBelow? (Nat.pow 2 64) v).map some

/-- What the linter reports about a text.  A list has to hold both of its fields. -/
def readVerification? (v : Json) : Option Inspection.Verification := do
  if (v.items?.map fun items => items.length != 2).getD false then none
  let fields ← v.fields? ["messages", "handle"]
  let messages ← (← Members.get? fields "messages").items?
  let violations ← messages.mapM Violation.ofJson?
  let handle ← Json.field? fields "handle" none readHandle?
  return { violations, handle }

/-- The violations in a text. -/
def verify (text : String) (handle : Option Inspection.Handle) (config : Config) (path : String) :
    Query Inspection.Verification :=
  { op := "verify"
    params := [("config", config.toJson), ("filename", .str path), sourceParam text handle]
    read? := readVerification? }

/-- Gives a handle back. -/
def release (handle : Inspection.Handle) : Query Json :=
  { op := "release", params := [("handle", .ofNat handle)], read? := some }

/-- A text as the linter mends it, or nothing if there is nothing to mend. -/
def fix (text : String) (config : Config) : Query (Option String) :=
  { op := "fix"
    params := [("text", .str text), ("config", config.toJson)]
    read? := Json.optionalStr? }

/-- What the result of a query comes to. -/
def conclude {α : Type} (q : Query α) : Except Failure Json → Except Failure α
  | .error f => .error f
  | .ok result =>
    match q.read? result with
    | some a => .ok a
    | none => .error (.during (.readBridgeResult q.op) (.malformed .json))

/-- Runs a query with a number. -/
def run {α : Type} (q : Query α) (id : Nat) : Dialogue Channel (Except Failure α) := do
  return q.conclude (← call id q.op q.params)

end Query
end LintSetup.Bridge
