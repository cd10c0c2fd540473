import LintSetup.Schema.Reference

/-!
# The normal form of an option schema

A rule declares its options in one of three ways: a list with one schema a position, a schema of the
whole option list, or the schema of its only option.  In the normal form there is one way: a schema
of the whole option list, without references.

* `describesList` --- whether an object is already a schema of the option list;
* `listOf` --- the schema of a list with given positions;
* `normalize` --- the normal form.
-/

namespace LintSetup.Schema

/-- The keys that make an object a choice between whole option lists. -/
def alternationKeys : List String := ["anyOf", "oneOf", "allOf"]

/-- Whether an object describes the option list: it has the type `array`, or it is a choice. -/
def describesList (members : Members Json) : Bool :=
  (Members.get? members "type").bind Json.str? == some "array" ||
    alternationKeys.any (Members.has members)

/-- The schema of a list with given positions. -/
def listOf (positions : List Json) : Json :=
  .obj [("type", .str "array"), ("items", .arr positions)]

/-- The normal form of a schema.  An object that is not a schema of the option list is resolved on
its own before it becomes the only position; in all other cases the whole is resolved. -/
def normalize : Json → Json
  | .obj members =>
    if describesList members then (resolve (.obj members)).1
    else listOf [(resolve (.obj members)).1]
  | .arr items => (resolve (listOf items)).1
  | .null | .bool _ | .num _ | .str _ => (resolve (listOf [])).1

end LintSetup.Schema
