import LintSetup.Json.Basic
import LintSetup.Lazy

/-!
# The option space of a schema

An option schema describes a space of values.  The parts of it that can be listed are literal
values, a choice between spaces, a list with a space for each position, and an object with a space
for each property; whatever else a schema says is an unsupported part.  `Space.ofSchema` reads a
schema as a space, and `Space.choices` lists the space.

## What an unsupported part does

In a choice it is one of the elements.  In a list it is the last element of its position, and stands
for all the lists that would have followed with the same positions before it.  In an object it means
that the property is left out.
-/

namespace LintSetup.Options

/-- An element of an option space: a value, or a place where listing had to give up. -/
inductive Choice where
  | value (v : Json)
  | unsupported
  deriving Repr, Inhabited

/-- The value of a choice. -/
def Choice.value? : Choice → Option Json
  | .value v => some v
  | .unsupported => none

/-- Whether listing had to give up. -/
def Choice.isUnsupported : Choice → Bool
  | .value _ => false
  | .unsupported => true

/-- A space of option values. -/
inductive Space where
  | unsupported
  | values (vs : List Json)
  | choice (alternatives : List Space)
  | tuple (positions : List Space)
  | record (fields : List (String × Space))
  deriving Inhabited

namespace Space

/-- The keys of a choice between schemas; the first one that occurs counts. -/
def alternativesOf (members : Members Json) : Option Json :=
  match Members.get? members "anyOf" with
  | some v => some v
  | none => Members.get? members "oneOf"

/-- The alternatives are smaller than the members they are found in. -/
theorem sizeOf_lt_of_alternativesOf {members : Members Json} {v : Json}
    (h : alternativesOf members = some v) : sizeOf v < sizeOf members := by
  unfold alternativesOf at h
  split at h
  · rename_i w hw
    cases h
    exact Json.sizeOf_lt_of_members_get? hw
  · exact Json.sizeOf_lt_of_members_get? h

/-- Whether an object schema admits properties that it does not declare. -/
def isOpen (members : Members Json) : Bool :=
  ((Members.get? members "additionalProperties").map Json.isTruthy).getD false

mutual

/-- The space that a schema describes. -/
def ofSchema : Json → Space
  | .obj members =>
    if Members.has members "allOf" then unsupported
    else
      match _h : alternativesOf members with
      | some (.arr schemas) => choice (ofSchemas schemas)
      | some _ => unsupported
      | none =>
        match Members.get? members "enum" with
        | some (.arr vs) => values vs
        | some _ => unsupported
        | none =>
          match Members.get? members "type" with
          | some (.str "boolean") => values [.bool true, .bool false]
          | some (.str "array") =>
            match _h : Members.get? members "items" with
            | some (.arr schemas) => tuple (ofSchemas schemas)
            | _ => unsupported
          | some (.str "object") =>
            if isOpen members then unsupported
            else
              match _h : Members.get? members "properties" with
              | some (.obj properties) => record (ofProperties properties)
              | _ => values []
          | _ => unsupported
  | .null | .bool _ | .num _ | .str _ | .arr _ => unsupported
termination_by s => sizeOf s
decreasing_by
  · have := sizeOf_lt_of_alternativesOf ‹_›
    simp at this ⊢
    omega
  · have := Json.sizeOf_lt_of_members_get? ‹_›
    simp at this ⊢
    omega
  · have := Json.sizeOf_lt_of_members_get? ‹_›
    simp at this ⊢
    omega

/-- The spaces of several schemas. -/
def ofSchemas : List Json → List Space
  | [] => []
  | s :: rest => ofSchema s :: ofSchemas rest
termination_by ss => sizeOf ss

/-- The spaces of declared properties. -/
def ofProperties : List (String × Json) → List (String × Space)
  | [] => []
  | (name, s) :: rest => (name, ofSchema s) :: ofProperties rest
termination_by ps => sizeOf ps

end

mutual

/-- The elements of a space in order, the last position or property varying fastest.  A list
without positions and an object without properties have none. -/
def choices : Space → Lazy Choice
  | unsupported => .single .unsupported
  | values vs => .ofList (vs.map .value)
  | choice alternatives => anyOf alternatives
  | tuple [] => .nil
  | tuple (s :: rest) => lists [] (s :: rest)
  | record [] => .nil
  | record (f :: rest) => objects [] (f :: rest)

/-- The elements of several spaces, one space after another. -/
def anyOf : List Space → Lazy Choice
  | [] => .nil
  | s :: rest => s.choices.append fun _ => anyOf rest

/-- The lists that begin with given values and go on through the given positions. -/
def lists (start : List Json) : List Space → Lazy Choice
  | [] => .single (.value (.arr start))
  | s :: rest =>
    (s.choices.throughFirst Choice.isUnsupported).flatMap fun
      | .unsupported => .single .unsupported
      | .value v => lists (start ++ [v]) rest

/-- The objects that begin with given members and go on through the given properties. -/
def objects (start : Members Json) : List (String × Space) → Lazy Choice
  | [] => .single (.value (.obj start))
  | (name, s) :: rest =>
    s.choices.flatMap fun
      | .unsupported => objects start rest
      | .value v => objects (Members.set start name v) rest

end

end Space

/-- The elements of the space that a schema describes. -/
def choices (schema : Json) : Lazy Choice := (Space.ofSchema schema).choices

end LintSetup.Options
