import LintSetup.Decimal.Shortest
import LintSetup.Members

/-!
# JSON values

A value keeps what its text shows: the order of the members of an object and the form of a number.
Whole numbers that fit 64 bits, signed or unsigned, are kept as they are; every other number is a
double, and is kept under its name, the shortest decimal that reads as that double
(`LintSetup.Decimal.Shortest`).  Two numbers are therefore the same exactly when they print the
same.

* `Number`, `Json` --- the values;
* `Json.get?`, `Json.str?`, `Json.members?` and so on --- reading a value as one of a kind;
* `Json.isTruthy` --- whether a value counts as present where a yes or no is expected;
* `sizeOf_lt_of_members_get?` --- a member is smaller than the members it stands among, which is
  what recursions on chosen members end by.
-/

namespace LintSetup

/-- A number: a whole number of 64 bits, or a double under its shortest name. -/
inductive Number where
  | whole (n : Int)
  | double (negative : Bool) (name : Decimal)
  deriving DecidableEq, Repr

/-- Whether a number is nought. -/
def Number.isZero : Number → Bool
  | .whole n => n == 0
  | .double _ name => name.digits == 0

/-- A JSON value. -/
inductive Json where
  | null
  | bool (b : Bool)
  | num (n : Number)
  | str (s : String)
  | arr (items : List Json)
  | obj (members : List (String × Json))
  deriving Repr, Inhabited

namespace Json

/-- The value as a text. -/
def str? : Json → Option String
  | str s => some s
  | _ => none

/-- The value as a list. -/
def items? : Json → Option (List Json)
  | arr items => some items
  | _ => none

/-- The value as an object. -/
def members? : Json → Option (Members Json)
  | obj members => some members
  | _ => none

/-- The value as a truth value. -/
def bool? : Json → Option Bool
  | bool b => some b
  | _ => none

/-- The value as a whole number that is not negative. -/
def nat? : Json → Option Nat
  | num (.whole n) => if 0 ≤ n then some n.toNat else none
  | _ => none

/-- The member of an object under a key. -/
def get? (v : Json) (key : String) : Option Json :=
  match v with
  | obj members => Members.get? members key
  | _ => none

/-- A whole number as a value. -/
def ofNat (n : Nat) : Json := num (.whole n)

/-- Texts as a list. -/
def ofStrings (ss : List String) : Json := arr (ss.map str)

/-- Whether a value counts as a yes: nothing, nought and the empty text do not. -/
def isTruthy : Json → Bool
  | null => false
  | bool b => b
  | num n => !n.isZero
  | str s => s != ""
  | arr _ | obj _ => true

/-- A member is smaller than the members it stands among. -/
theorem sizeOf_lt_of_members_get? {members : Members Json} {key : String} {v : Json}
    (h : Members.get? members key = some v) : sizeOf v < sizeOf members := by
  induction members with
  | nil => simp at h
  | cons m rest ih =>
    obtain ⟨k, w⟩ := m
    rw [Members.get?_cons] at h
    split at h
    · cases h
      simp
      omega
    · have := ih h
      simp
      omega

end Json
end LintSetup
