import LintSetup.Options.Setting
import Mathlib.Data.List.Basic

/-!
# Listing settings on demand

The settings of a rule are found by asking for one element of its option space after another, and the
asking stops early: at an unsupported part, which may come after thousands of values, or once there
are too many settings, which may be long before an unsupported part comes.  Here it is said that
neither shows.  The settings are what a look at the whole sequence gives.

* `IsHopeless` --- the elements hold an unsupported part, or there are too many of them beside the
  settings that there are already.
* `run_collect` --- from any settings found so far, the loop drops all but the first exactly when
  what is to come is hopeless.
* `length_transcript_collect_le` --- how often the loop asks.

Both are inductions on the sequence, with one equation of the loop for each answer to a request.
`settings_of_choices` says the two things of a rule, beside that the sequence has handed out no more
than it was asked for (`Lazy.taken_append_toList`).
-/

namespace LintSetup

namespace Lazy

variable {α β σ : Type} {rest tail : Unit → Lazy α}

theorem run_nextElement (h : Handler (Elements α) σ) (f : Option α → Dialogue (Elements α) β)
    (s : σ) : (nextElement >>= f).run h s = (f (h () s).1).run h (h () s).2 := rfl

theorem transcript_nextElement (h : Handler (Elements α) σ)
    (f : Option α → Dialogue (Elements α) β) (s : σ) :
    (nextElement >>= f).transcript h s = ⟨(), (h () s).1⟩ :: (f (h () s).1).transcript h (h () s).2 :=
  rfl

theorem handOut_of_nil (h : rest () = nil) (r : (Elements α).Request) :
    handOut r rest = (none, fun _ => nil) := by
  unfold handOut
  split
  · rfl
  · next heq => nomatch h.symm.trans heq

theorem handOut_of_cons {a : α} (h : rest () = cons a tail) (r : (Elements α).Request) :
    handOut r rest = (some a, tail) := by
  unfold handOut
  split
  · next heq => nomatch h.symm.trans heq
  · next heq =>
    obtain ⟨rfl, rfl⟩ := cons.inj (h.symm.trans heq)
    rfl

/-- The elements that were handed out in a conversation. -/
def taken (exchanges : List (Exchange (Elements α))) : List α :=
  exchanges.filterMap (·.answer)

/-- What was handed out and what is left are the elements of the sequence, whatever was asked. -/
theorem taken_append_toList (d : Dialogue (Elements α) β) (rest : Unit → Lazy α) :
    taken (d.transcript handOut rest) ++ ((d.run handOut rest).2 ()).toList = (rest ()).toList := by
  induction d generalizing rest with
  | done b => rfl
  | request r next ih =>
    rw [Dialogue.transcript_request, Dialogue.run_request]
    cases hrest : rest () with
    | nil =>
      rw [handOut_of_nil hrest]
      exact ih none fun _ => nil
    | cons a tail =>
      rw [handOut_of_cons hrest, toList_cons, ← ih (some a) tail]
      rfl

end Lazy

namespace Options

open Lazy (handOut)

variable {limit : Nat} {found : List Json} {rest tail : Unit → Lazy Choice} {v : Json}

/-! ## One round of the loop -/

theorem run_collect_of_nil (h : rest () = .nil) :
    ((collect limit found).run handOut rest).1 = found := by
  rw [collect, Lazy.run_nextElement, Lazy.handOut_of_nil h]
  rfl

theorem run_collect_of_unsupported (h : rest () = .cons .unsupported tail) :
    ((collect limit found).run handOut rest).1 = found.take 1 := by
  rw [collect, Lazy.run_nextElement, Lazy.handOut_of_cons h]
  rfl

/-- A value after which there are too many settings is the last one that is looked at. -/
theorem run_collect_of_full (h : rest () = .cons (.value v) tail)
    (hfull : limit < found.length + 1) :
    ((collect limit found).run handOut rest).1 = (found ++ [withOptions v]).take 1 := by
  rw [collect, Lazy.run_nextElement, Lazy.handOut_of_cons h]
  simp only [List.length_append, List.length_singleton, if_pos hfull]
  rfl

/-- After any other value the loop goes on. -/
theorem run_collect_of_room (h : rest () = .cons (.value v) tail)
    (hroom : found.length + 1 ≤ limit) :
    (collect limit found).run handOut rest =
      (collect limit (found ++ [withOptions v])).run handOut tail := by
  have hnot : ¬ limit < found.length + 1 := Nat.not_lt.mpr hroom
  rw [collect, Lazy.run_nextElement, Lazy.handOut_of_cons h]
  simp only [List.length_append, List.length_singleton, if_neg hnot]

theorem length_transcript_collect_of_room (h : rest () = .cons (.value v) tail)
    (hroom : found.length + 1 ≤ limit) :
    ((collect limit found).transcript handOut rest).length =
      ((collect limit (found ++ [withOptions v])).transcript handOut tail).length + 1 := by
  have hnot : ¬ limit < found.length + 1 := Nat.not_lt.mpr hroom
  rw [collect, Lazy.transcript_nextElement, Lazy.handOut_of_cons h, List.length_cons]
  simp only [List.length_append, List.length_singleton, if_neg hnot]

/-- Where the loop does not go on, it has asked once. -/
theorem length_transcript_collect_of_last
    (h : ∀ v tail, rest () = .cons (.value v) tail → limit < found.length + 1) :
    ((collect limit found).transcript handOut rest).length = 1 := by
  rw [collect, Lazy.transcript_nextElement, List.length_cons]
  cases hrest : rest () with
  | nil =>
    rw [Lazy.handOut_of_nil hrest]
    rfl
  | cons c tail =>
    rw [Lazy.handOut_of_cons hrest]
    cases c with
    | unsupported => rfl
    | value v =>
      simp only [List.length_append, List.length_singleton, if_pos (h v tail hrest)]
      rfl

/-! ## The whole sequence -/

/-- Elements of which no settings are made beside `n` that there are: they hold an unsupported part,
or there are too many of them. -/
def IsHopeless (limit n : Nat) (elements : List Choice) : Prop :=
  .unsupported ∈ elements ∨ elements ≠ [] ∧ limit < n + elements.length

theorem not_isHopeless_nil (limit n : Nat) : ¬ IsHopeless limit n [] := by
  rintro (h | ⟨h, -⟩)
  · exact List.not_mem_nil h
  · exact h rfl

theorem isHopeless_unsupported (limit n : Nat) (elements : List Choice) :
    IsHopeless limit n (.unsupported :: elements) := .inl List.mem_cons_self

/-- With one value more, there are too many settings already, or what comes after it is hopeless. -/
theorem isHopeless_value_iff {n : Nat} {elements : List Choice} :
    IsHopeless limit n (.value v :: elements) ↔
      limit < n + 1 ∨ IsHopeless limit (n + 1) elements := by
  have hmem : Choice.unsupported ∈ Choice.value v :: elements ↔ .unsupported ∈ elements :=
    List.mem_cons.trans (or_iff_right fun h => Choice.noConfusion h)
  rw [IsHopeless, IsHopeless, hmem, List.length_cons]
  rcases elements with _ | ⟨c, elements⟩
  · simp
  · simp only [ne_eq, List.cons_ne_nil, not_false_eq_true, true_and, List.length_cons]
    constructor
    · rintro (h | h)
      · exact .inr (.inl h)
      · exact .inr (.inr (by omega))
    · rintro (h | h | h)
      · exact .inr (by omega)
      · exact .inl h
      · exact .inr (by omega)

/-- Otherwise the limit has room for them, where it always has room for one setting. -/
theorem add_length_le_of_not_isHopeless {elements : List Choice}
    (h : ¬ IsHopeless limit 1 elements) : 1 + elements.length ≤ max 1 limit := by
  by_cases hempty : elements = []
  · rw [hempty]
    exact Nat.le_max_left _ _
  · have hle : ¬ limit < 1 + elements.length := fun hlt => h (.inr ⟨hempty, hlt⟩)
    omega

/-- **What the loop comes to.**  From settings that start with some first one, the loop drops all
others when what is to come is hopeless, and otherwise adds one setting for each value. -/
theorem run_collect (first : Json) (found : List Json) (xs : Lazy Choice) (h : rest () = xs) :
    (IsHopeless limit (found.length + 1) xs.toList →
        ((collect limit (first :: found)).run handOut rest).1 = [first]) ∧
      (¬ IsHopeless limit (found.length + 1) xs.toList →
        ∃ values : List Json, xs.toList = values.map .value ∧
          ((collect limit (first :: found)).run handOut rest).1 =
            first :: found ++ values.map withOptions) := by
  induction xs generalizing found rest with
  | nil =>
    refine ⟨fun hhopeless => absurd hhopeless (not_isHopeless_nil _ _), fun _ => ⟨[], rfl, ?_⟩⟩
    rw [run_collect_of_nil h, List.map_nil, List.append_nil]
  | cons c tail ih =>
    rw [Lazy.toList_cons]
    cases c with
    | unsupported =>
      refine ⟨fun _ => ?_, fun hnot => absurd (isHopeless_unsupported _ _ _) hnot⟩
      rw [run_collect_of_unsupported h]
      rfl
    | value v =>
      rw [isHopeless_value_iff]
      by_cases hfull : limit < found.length + 1 + 1
      · refine ⟨fun _ => ?_, fun hnot => absurd (.inl hfull) hnot⟩
        rw [run_collect_of_full h hfull]
        rfl
      · rw [run_collect_of_room h (Nat.not_lt.mp hfull), List.cons_append]
        obtain ⟨hhopeless, hnot⟩ := ih () (found ++ [withOptions v]) rfl
        rw [List.length_append, List.length_singleton] at hhopeless hnot
        constructor
        · intro hlate
          exact hhopeless (hlate.resolve_left hfull)
        · intro hlate
          obtain ⟨values, hvalues, hrun⟩ := hnot fun h => hlate (.inr h)
          refine ⟨v :: values, by rw [hvalues, List.map_cons], ?_⟩
          rw [hrun, List.map_cons, List.cons_append, List.cons_append, List.append_assoc,
            List.singleton_append]

/-- **How often the loop asks.**  With settings found already, it asks at most as often as the limit
leaves room for one more; and always once. -/
theorem length_transcript_collect_le (found : List Json) (xs : Lazy Choice) (h : rest () = xs) :
    ((collect limit found).transcript handOut rest).length ≤ max 1 (limit + 1 - found.length) := by
  induction xs generalizing found rest with
  | nil =>
    rw [length_transcript_collect_of_last fun v tail hcons => by rw [h] at hcons; cases hcons]
    exact Nat.le_max_left _ _
  | cons c tail ih =>
    by_cases hgoes : ∃ v, c = .value v ∧ found.length + 1 ≤ limit
    · obtain ⟨v, rfl, hroom⟩ := hgoes
      have hrest := ih () (found ++ [withOptions v]) rfl
      rw [List.length_append, List.length_singleton] at hrest
      rw [length_transcript_collect_of_room h hroom]
      change _ ≤ max 1 (limit + 1 - (found.length + 1)) at hrest
      omega
    · rw [length_transcript_collect_of_last]
      · exact Nat.le_max_left _ _
      · intro v tail' hcons
        obtain ⟨rfl, -⟩ := Lazy.cons.inj (h.symm.trans hcons)
        exact Nat.not_le.mp fun hroom => hgoes ⟨v, rfl, hroom⟩

/-! ## The settings of a rule -/

/-- **Listing on demand is listing.**  Let `elements` be all that the schema of a rule admits.  If
there is an unsupported part anywhere in it, or it makes more settings than the limit, the bare
setting is the only one; otherwise there is one more setting for each value, in order.

The bare setting always comes first, and there are no more settings than the limit allows, where one
is always allowed.  Nor are there more requests for an element; and those that were handed out are
the first ones of the sequence. -/
theorem settings_of_choices (rule : Rule) (limit : Nat) :
    let space := choices (Schema.normalize rule.schema)
    let elements := space.toList
    let exchanges := (collect limit [bare]).transcript handOut fun _ => space
    (IsHopeless limit 1 elements → settings rule limit = [bare]) ∧
      (¬ IsHopeless limit 1 elements → ∃ values : List Json, elements = values.map .value ∧
        settings rule limit = bare :: values.map withOptions) ∧
      (settings rule limit).head? = some bare ∧
      (settings rule limit).length ≤ max 1 limit ∧
      exchanges.length ≤ max 1 limit ∧
      Lazy.taken exchanges <+: elements := by
  intro space elements exchanges
  obtain ⟨hhopeless, hlisted⟩ := @run_collect limit (fun _ => space) bare [] space rfl
  have hbounds : (settings rule limit).head? = some bare ∧
      (settings rule limit).length ≤ max 1 limit := by
    by_cases h : IsHopeless limit 1 elements
    · have hsettings : settings rule limit = [bare] := hhopeless h
      rw [hsettings]
      exact ⟨rfl, Nat.le_max_left _ _⟩
    · obtain ⟨values, hvalues, hrun⟩ := hlisted h
      have hsettings : settings rule limit = bare :: values.map withOptions := hrun
      have hlength : elements.length = values.length :=
        (congrArg List.length hvalues).trans (List.length_map _)
      have hroom := add_length_le_of_not_isHopeless h
      rw [hsettings, List.length_cons, List.length_map]
      exact ⟨rfl, by omega⟩
  exact ⟨hhopeless, hlisted, hbounds.1, hbounds.2, length_transcript_collect_le [bare] space rfl,
    _, Lazy.taken_append_toList (collect limit [bare]) fun _ => space⟩

end Options
end LintSetup
