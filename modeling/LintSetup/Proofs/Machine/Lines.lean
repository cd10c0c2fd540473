import LintSetup.Machine.Rehearsal

/-!
# The lines of a stream

What a process writes is bytes, and it is read line by line.  `Machine.lines` are all the lines that
bytes have, each with its line feed; only the last one may be without.  Taking lines up to one to
stop at (`Machine.takeLines`) finds the first such line of these, and leaves the lines after it
(`takeLines_cases`).
-/

namespace LintSetup.Machine

open Text (Bytes)

/-- The lines of bytes, each with its line feed if it has one. -/
def lines : Bytes → List Bytes
  | [] => []
  | b :: bs =>
    if b = lineFeed then [b] :: lines bs
    else
      match lines bs with
      | [] => [[b]]
      | line :: rest => (b :: line) :: rest

theorem firstLine_cons (b : UInt8) (bs : Bytes) :
    firstLine (b :: bs) = if b = lineFeed then [b] else b :: firstLine bs := by
  by_cases hb : b = lineFeed <;> simp [firstLine, hb]

/-- The first of the lines is the first line, and the others are the lines after it. -/
theorem lines_cons (b : UInt8) (bs : Bytes) :
    lines (b :: bs) =
      firstLine (b :: bs) :: lines ((b :: bs).drop (firstLine (b :: bs)).length) := by
  induction bs generalizing b with
  | nil => by_cases hb : b = lineFeed <;> simp [lines, firstLine, hb]
  | cons c bs ih =>
    rw [firstLine_cons, lines]
    split
    · rfl
    · rw [ih c, List.length_cons, List.drop_succ_cons]

/-- **Taking lines** either stops at the first line that is to be stopped at and leaves the lines
after it, or it comes to the end without one and leaves nothing. -/
theorem takeLines_cases (stop : Bytes → Bool) {fuel : Nat} {bs : Bytes} (hf : bs.length ≤ fuel) :
    (∃ passed line rest, lines bs = passed ++ line :: lines rest ∧
      (∀ l ∈ passed, stop l = false) ∧ stop line = true ∧
        takeLines stop fuel bs = (some line, rest)) ∨
      (∀ l ∈ lines bs, stop l = false) ∧ takeLines stop fuel bs = (none, []) := by
  induction fuel generalizing bs with
  | zero =>
    obtain rfl := List.length_eq_zero_iff.mp (Nat.le_zero.mp hf)
    exact .inr ⟨by simp [lines], rfl⟩
  | succ fuel ih =>
    rcases bs with _ | ⟨b, bs⟩
    · exact .inr ⟨by simp [lines], rfl⟩
    have hpos : 0 < (firstLine (b :: bs)).length := by
      rw [firstLine_cons]
      split <;> simp
    have htake : takeLines stop (fuel + 1) (b :: bs) =
        if stop (firstLine (b :: bs)) then
          (some (firstLine (b :: bs)), (b :: bs).drop (firstLine (b :: bs)).length)
        else takeLines stop fuel ((b :: bs).drop (firstLine (b :: bs)).length) := rfl
    rw [lines_cons, htake]
    generalize firstLine (b :: bs) = first at hpos ⊢
    cases hstop : stop first with
    | true => exact .inl ⟨[], _, _, rfl, by simp, hstop, rfl⟩
    | false =>
      have hshorter : ((b :: bs).drop first.length).length ≤ fuel := by
        rw [List.length_drop]
        omega
      rcases ih hshorter with ⟨passed, line, rest, hlines, hpassed, hline, hrun⟩ | ⟨hall, hrun⟩
      · refine .inl ⟨first :: passed, line, rest, ?_, ?_, hline, hrun⟩
        · rw [hlines, List.cons_append]
        · exact List.forall_mem_cons.mpr ⟨hstop, hpassed⟩
      · exact .inr ⟨List.forall_mem_cons.mpr ⟨hstop, hall⟩, hrun⟩

end LintSetup.Machine
