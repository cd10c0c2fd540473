import LintSetup.Json.Pointer

/-!
# References in a schema

An object with a text under `$ref` refers to another object of the same schema and stands for
itself with the members of that object added.  Inlining works from the inside out: the members of
an object are inlined first, then its own reference is looked up, the members of the target that the
object lacks are added at its end, and `$ref` goes away.  A reference that leads nowhere goes away
as well and leaves an issue.

A target may hold references too, so it is inlined on its way in.  What keeps this finite is the
list of *pending* references, those of the whole schema that are not being followed at the moment:
following one takes it off the list, and a reference that is not on the list refers back to itself.

* `Issue` --- what can be wrong with a reference;
* `references` --- the references of a value;
* `inline` --- a value with its references replaced by what a given function makes of them;
* `follow` --- what a reference stands for in a schema, while some references are pending;
* `resolve` --- a schema without references.
-/

namespace LintSetup.Schema

/-- What is wrong with a reference. -/
inductive Issue where
  | unresolved (reference : String)
  | cyclic (reference : String)
  | external (reference : String)
  deriving DecidableEq, Repr

/-- The reference that an issue is about. -/
def Issue.reference : Issue → String
  | .unresolved r | .cyclic r | .external r => r

/-- The wording of an issue. -/
def Issue.message : Issue → String
  | .unresolved r => s!"$ref '{r}' was not found"
  | .cyclic r => s!"$ref '{r}' refers back to itself"
  | .external r => s!"$ref '{r}' is not a local reference"

/-- The key of a reference. -/
def refKey : String := "$ref"

/-- The reference of an object: the text under `$ref`. -/
def referenceOf (members : Members Json) : Option String :=
  (Members.get? members refKey).bind Json.str?

mutual

/-- The references of the objects in a value. -/
def references : Json → List String
  | .arr items => referencesItems items
  | .obj members => referencesMembers members ++ (referenceOf members).toList
  | .null | .bool _ | .num _ | .str _ => []

/-- The references in the items of a list. -/
def referencesItems : List Json → List String
  | [] => []
  | v :: rest => references v ++ referencesItems rest

/-- The references in the values of members. -/
def referencesMembers : List (String × Json) → List String
  | [] => []
  | (_, v) :: rest => references v ++ referencesMembers rest

end

/-- The members of an object with those of a target that it lacks, and without its reference. -/
def absorb (members target : Members Json) : Members Json :=
  Members.erase (target.foldl (fun ms (k, v) => Members.setNew ms k v) members) refKey

mutual

/-- A value with its references replaced: `fetch` gives the members that a reference stands for and
the issues met on the way. -/
def inline (fetch : String → Members Json × List Issue) : Json → Json × List Issue
  | .arr items =>
    let (items, issues) := inlineItems fetch items
    (.arr items, issues)
  | .obj members =>
    let (members, issues) := inlineMembers fetch members
    match referenceOf members with
    | none => (.obj members, issues)
    | some r =>
      let (target, more) := fetch r
      (.obj (absorb members target), issues ++ more)
  | .null => (.null, [])
  | .bool b => (.bool b, [])
  | .num n => (.num n, [])
  | .str s => (.str s, [])

/-- `inline` on the items of a list. -/
def inlineItems (fetch : String → Members Json × List Issue) : List Json → List Json × List Issue
  | [] => ([], [])
  | v :: rest =>
    let (v, issues) := inline fetch v
    let (rest, more) := inlineItems fetch rest
    (v :: rest, issues ++ more)

/-- `inline` on the values of members. -/
def inlineMembers (fetch : String → Members Json × List Issue) :
    List (String × Json) → List (String × Json) × List Issue
  | [] => ([], [])
  | (k, v) :: rest =>
    let (v, issues) := inline fetch v
    let (rest, more) := inlineMembers fetch rest
    ((k, v) :: rest, issues ++ more)

end

/-- The object that a local reference names; its pointer is what follows the `#`. -/
def target? (root : Json) (r : String) : Option (Members Json) :=
  match r.toList with
  | '#' :: pointer => (root.at? pointer).bind Json.members?
  | _ => none

/-- Whether a reference stays in its schema. -/
def isLocal (r : String) : Bool := r.toList.head? == some '#'

/-- The references other than one. -/
def without (references : List String) (r : String) : List String := references.filter (· ≠ r)

/-- Fewer references are left without one of them. -/
theorem length_without_lt {references : List String} {r : String} (h : r ∈ references) :
    (without references r).length < references.length :=
  List.length_filter_lt_length_iff_exists.2 ⟨r, h, by simp⟩

/-- What a reference stands for in a schema: the members of its target, which are inlined while the
reference is not pending. -/
def follow (root : Json) (pending : List String) : String → Members Json × List Issue := fun r =>
  if isLocal r then
    if _h : r ∈ pending then
      match target? root r with
      | some members =>
        let (v, issues) := inline (follow root (without pending r)) (.obj members)
        (v.members?.getD [], issues)
      | none => ([], [.unresolved r])
    else ([], [.cyclic r])
  else ([], [.external r])
termination_by pending.length
decreasing_by
  exact length_without_lt ‹_›

/-- A schema without references, and the issues met in the order in which they were met. -/
def resolve (root : Json) : Json × List Issue := inline (follow root (references root)) root

end LintSetup.Schema
