import LintSetup.Json.Basic
import LintSetup.Text.Utf8

/-!
# Values with their keys in order

Before a configuration is written to a file, the members of every object in it are put in ascending
order of their keys, at every depth; the items of lists stay where they are.  Keys are compared by
their UTF-8 bytes.

* `Json.sorted` --- the value with all keys in order.
-/

namespace LintSetup.Json

/-- Whether the key of a member may stand before the key of another: its bytes do not come later. -/
def keyLE (m n : String × Json) : Bool := decide (Text.encode m.1 ≤ Text.encode n.1)

mutual

/-- The value with the members of every object in ascending order of their keys. -/
def sorted : Json → Json
  | obj members => obj ((sortedMembers members).mergeSort keyLE)
  | arr items => arr (sortedItems items)
  | null => null
  | bool b => bool b
  | num n => num n
  | str s => str s

/-- Each of several values with its keys in order. -/
def sortedItems : List Json → List Json
  | [] => []
  | v :: rest => sorted v :: sortedItems rest

/-- Members that stay where they are, each value with its keys in order. -/
def sortedMembers : List (String × Json) → List (String × Json)
  | [] => []
  | (k, v) :: rest => (k, sorted v) :: sortedMembers rest

end

@[simp] theorem sortedItems_eq_map (items : List Json) : sortedItems items = items.map sorted := by
  induction items with
  | nil => rfl
  | cons v rest ih => simp [sortedItems, ih]

@[simp] theorem sortedMembers_eq_map (members : List (String × Json)) :
    sortedMembers members = members.map fun m => (m.1, sorted m.2) := by
  induction members with
  | nil => rfl
  | cons m rest ih => simp [sortedMembers, ih]

end LintSetup.Json
