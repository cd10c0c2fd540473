import LintSetup.Json.Record

/-!
# What reading a record's fields means

One lemma for each reader of a field: what it means that it accepts a value.
-/

namespace LintSetup.Json

theorem get?_eq_some_iff {v w : Json} {key : String} :
    v.get? key = some w ↔ ∃ members, v = .obj members ∧ Members.get? members key = some w := by
  cases v <;> simp [get?]

theorem str?_eq_some_iff {v : Json} {s : String} : v.str? = some s ↔ v = .str s := by
  cases v <;> simp [str?]

/-- A field reads as its standard if it is missing, and as what stands there otherwise. -/
theorem field?_eq_some_iff {α : Type} {fields : Members Json} {name : String} {standard a : α}
    {read : Json → Option α} :
    field? fields name standard read = some a ↔
      (Members.get? fields name = none ∧ a = standard) ∨
        ∃ v, Members.get? fields name = some v ∧ read v = some a := by
  rw [field?]
  cases Members.get? fields name <;> simp [eq_comm]

theorem optionalStr?_eq_some_iff {v : Json} {text : Option String} :
    optionalStr? v = some text ↔
      (v = .null ∧ text = none) ∨ ∃ s, v = .str s ∧ text = some s := by
  cases v <;> simp [optionalStr?, eq_comm]

theorem natBelow?_eq_some_iff {bound n : Nat} {v : Json} :
    natBelow? bound v = some n ↔ v.nat? = some n ∧ n < bound := by
  rw [natBelow?, Option.bind_eq_some_iff]
  constructor
  · rintro ⟨m, hm, hbound⟩
    split at hbound
    · obtain rfl := Option.some.inj hbound
      exact ⟨hm, ‹_›⟩
    · cases hbound
  · rintro ⟨hn, hbound⟩
    exact ⟨n, hn, if_pos hbound⟩

end LintSetup.Json
