import LintSetup.Dialogue

/-!
# Finite sequences that are produced on demand

The settings that a schema admits can be too many to be written down, while only the first few of
them are asked for.  A `Lazy` sequence is a first element and a way to get the rest.  Every such
sequence is finite, and `toList` is the list that it stands for; each operation below has one
equation that says what it does to that list.

* `ofList`, `single`, `append`, `flatMap`, `throughFirst` --- building a sequence;
* `take`, `isLongerThan` --- asking for a part of it;
* `Elements`, `handOut` --- taking the elements one at a time, in a conversation with the sequence.
-/

namespace LintSetup

/-- A finite sequence whose rest is produced on demand. -/
inductive Lazy (α : Type) where
  | nil
  | cons (head : α) (tail : Unit → Lazy α)

namespace Lazy

variable {α β : Type}

/-- The list that a sequence stands for. -/
def toList : Lazy α → List α
  | nil => []
  | cons a tail => a :: (tail ()).toList

/-- The sequence of one element. -/
def single (a : α) : Lazy α := cons a fun _ => nil

/-- A list as a sequence. -/
def ofList : List α → Lazy α
  | [] => nil
  | a :: as => cons a fun _ => ofList as

/-- One sequence after another; the second is produced when the first has ended. -/
def append : Lazy α → (Unit → Lazy α) → Lazy α
  | nil, ys => ys ()
  | cons a tail, ys => cons a fun _ => (tail ()).append ys

/-- The sequences that the elements stand for, one after another. -/
def flatMap (f : α → Lazy β) : Lazy α → Lazy β
  | nil => nil
  | cons a tail => (f a).append fun _ => (tail ()).flatMap f

/-- The sequence up to and including the first element of a kind. -/
def throughFirst (p : α → Bool) : Lazy α → Lazy α
  | nil => nil
  | cons a tail => cons a fun _ => if p a then nil else (tail ()).throughFirst p

/-- The first `n` elements. -/
def take : Nat → Lazy α → List α
  | 0, _ => []
  | _ + 1, nil => []
  | n + 1, cons a tail => a :: (tail ()).take n

/-- Whether a sequence has more than `n` elements. -/
def isLongerThan : Lazy α → Nat → Bool
  | nil, _ => false
  | cons _ _, 0 => true
  | cons _ tail, n + 1 => (tail ()).isLongerThan n

/-- The conversation with a sequence: the only request is for the next element, and there is none
when the sequence has ended. -/
abbrev Elements (α : Type) : Interface := ⟨Unit, fun _ => Option α⟩

/-- Asks for the next element. -/
def nextElement : Dialogue (Elements α) (Option α) := Dialogue.ask (I := Elements α) ()

/-- A sequence hands out its elements.  What is left is not produced before it is asked for. -/
def handOut : Handler (Elements α) (Unit → Lazy α) := fun _ rest =>
  match rest () with
  | nil => (none, fun _ => nil)
  | cons a tail => (some a, tail)

/-- The list up to and including the first element of a kind. -/
def listThroughFirst (p : α → Bool) : List α → List α
  | [] => []
  | a :: as => a :: if p a then [] else listThroughFirst p as

/-- What comes through comes from the list. -/
theorem mem_of_mem_listThroughFirst {p : α → Bool} {a : α} {as : List α}
    (h : a ∈ listThroughFirst p as) : a ∈ as := by
  induction as with
  | nil => exact h
  | cons b as ih =>
    rw [listThroughFirst, List.mem_cons] at h
    rcases h with rfl | h
    · exact List.mem_cons_self
    · split at h
      · exact absurd h List.not_mem_nil
      · exact List.mem_cons_of_mem b (ih h)

/-- A list without an element of the kind comes through as it is. -/
theorem listThroughFirst_eq_self {p : α → Bool} {as : List α} (h : ∀ a ∈ as, p a = false) :
    listThroughFirst p as = as := by
  induction as with
  | nil => rfl
  | cons b as ih =>
    rw [List.forall_mem_cons] at h
    rw [listThroughFirst, h.1, if_neg Bool.false_ne_true, ih h.2]

@[simp] theorem toList_nil : (nil : Lazy α).toList = [] := rfl

@[simp] theorem toList_cons (a : α) (tail : Unit → Lazy α) :
    (cons a tail).toList = a :: (tail ()).toList := rfl

@[simp] theorem toList_single (a : α) : (single a).toList = [a] := rfl

@[simp] theorem toList_ofList (as : List α) : (ofList as).toList = as := by
  induction as with
  | nil => rfl
  | cons a as ih => simp [ofList, ih]

@[simp] theorem toList_append (xs : Lazy α) (ys : Unit → Lazy α) :
    (xs.append ys).toList = xs.toList ++ (ys ()).toList := by
  induction xs with
  | nil => rfl
  | cons a tail ih => simp [append, ih]

@[simp] theorem toList_flatMap (f : α → Lazy β) (xs : Lazy α) :
    (xs.flatMap f).toList = xs.toList.flatMap fun a => (f a).toList := by
  induction xs with
  | nil => rfl
  | cons a tail ih => simp [flatMap, ih]

@[simp] theorem toList_throughFirst (p : α → Bool) (xs : Lazy α) :
    (xs.throughFirst p).toList = listThroughFirst p xs.toList := by
  induction xs with
  | nil => rfl
  | cons a tail ih =>
    by_cases h : p a <;> simp [throughFirst, listThroughFirst, h, ih]

@[simp] theorem take_eq (n : Nat) (xs : Lazy α) : xs.take n = xs.toList.take n := by
  induction n generalizing xs with
  | zero => simp [take]
  | succ n ih => cases xs <;> simp [take, ih]

@[simp] theorem isLongerThan_iff (xs : Lazy α) (n : Nat) :
    xs.isLongerThan n = true ↔ n < xs.toList.length := by
  induction xs generalizing n with
  | nil => simp [isLongerThan]
  | cons a tail ih => cases n <;> simp [isLongerThan, ih]

end Lazy
end LintSetup
