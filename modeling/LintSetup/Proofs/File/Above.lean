import LintSetup.Proofs.File.Below
import Mathlib.Data.List.Infix

/-!
# Paths above a path

The paths above a path are texts, cut off at one of its steps.  What they are is said by their
components, which are the beginnings of the components of the path, longest first
(`map_components_ancestors`): none is passed over, and each is above those before it.  So the first
of them with a property is the nearest one, in a sense that speaks of components only (`Nearest`)
and takes in every way of writing a path.

* `AtOrAbove` --- a path itself, or one above it;
* `Nearest` --- the nearest path with a property;
* `find?_ancestors_eq_some_iff`, `find?_ancestors_eq_none_iff` --- what the first is, and when there
  is none.
-/

namespace LintSetup.Path

/-! ## Steps after the start -/

/-- An absolute path has an empty step before its first slash. -/
theorem steps_of_absolute {p : String} (h : isAbsolute p = true) :
    steps p = "" :: stepsFromStart p := by
  obtain ⟨cs, hcs⟩ := List.head?_eq_some_iff.mp (beq_iff_eq.mp h)
  rw [stepsFromStart, if_pos h, steps, Text.pieces, hcs, Text.cutAt, if_pos rfl]
  rfl

theorem steps_of_relative {p : String} (h : isAbsolute p = false) : steps p = stepsFromStart p := by
  rw [stepsFromStart, if_neg (Bool.eq_false_iff.mp h)]

/-- The first step of a relative path is not empty, unless the path is. -/
theorem head?_steps_of_relative {p : String} (h : isAbsolute p = false) (hp : p ≠ "") :
    (steps p).head? ≠ some "" := by
  obtain ⟨c, cs, hcs⟩ := List.exists_cons_of_ne_nil (mt String.toList_eq_nil_iff.mp hp)
  have hc : c ≠ '/' := by
    rintro rfl
    rw [isAbsolute, hcs] at h
    cases h
  obtain ⟨first, rest, hcut⟩ := List.exists_cons_of_ne_nil (Text.cutAt_ne_nil '/' cs)
  rw [steps, Text.pieces, hcs, Text.cutAt, if_neg hc, hcut, List.map_cons, List.head?_cons, ne_eq,
    Option.some_inj, ← String.toList_inj, String.toList_ofList]
  exact List.cons_ne_nil c first

/-- Steps that a path can have after its start. -/
structure AreSteps (absolute : Bool) (ss : List String) : Prop where
  slashless : ∀ s ∈ ss, '/' ∉ s.toList
  first : absolute = false → ss.head? ≠ some ""

theorem AreSteps.of_concat {absolute : Bool} {ss : List String} {s : String}
    (h : AreSteps absolute (ss ++ [s])) : AreSteps absolute ss := by
  refine ⟨fun t ht => h.slashless t (List.mem_append_left _ ht), fun habsolute => ?_⟩
  cases ss with
  | nil => simp
  | cons t ss => exact h.first habsolute

theorem areSteps_stepsFromStart {p : String} (hp : p ≠ "") :
    AreSteps (isAbsolute p) (stepsFromStart p) := by
  refine ⟨fun s hs => slashless_of_mem_steps (p := p) ?_, fun h => ?_⟩
  · cases h : isAbsolute p with
    | true => exact steps_of_absolute h ▸ List.mem_cons_of_mem "" hs
    | false => exact steps_of_relative h ▸ hs
  · exact steps_of_relative h ▸ head?_steps_of_relative h hp

/-- A path that is put together from steps has these steps after its start. -/
theorem ofSteps_spec {absolute : Bool} {ss : List String} (hne : ss ≠ [])
    (h : AreSteps absolute ss) :
    isAbsolute (ofSteps absolute ss) = absolute ∧ stepsFromStart (ofSteps absolute ss) = ss := by
  cases absolute with
  | true =>
    have habsolute : isAbsolute (ofSteps true ss) = true := by
      rw [ofSteps, if_pos rfl, isAbsolute_append (by decide)]
      decide
    refine ⟨habsolute, ?_⟩
    have hsteps : steps (ofSteps true ss) = "" :: ss := by
      have htext : ofSteps true ss = "" ++ "/" ++ "/".intercalate ss := rfl
      rw [htext, steps_append, steps_intercalate hne h.slashless]
      rfl
    exact (List.cons.inj ((steps_of_absolute habsolute).symm.trans hsteps)).2
  | false =>
    have htext : ofSteps false ss = "/".intercalate ss := by
      rw [ofSteps, if_neg Bool.false_ne_true, String.empty_append]
    have hsteps : steps (ofSteps false ss) = ss := by
      rw [htext, steps_intercalate hne h.slashless]
    have habsolute : isAbsolute (ofSteps false ss) = false := by
      by_contra hnot
      refine h.first rfl ?_
      rw [← hsteps, steps_of_absolute (Bool.not_eq_false _ ▸ hnot)]
      rfl
    exact ⟨habsolute, (steps_of_relative habsolute).symm.trans hsteps⟩

/-! ## Steps that count -/

/-- The component that stands for the root. -/
def rootPart (absolute : Bool) : List String := if absolute then ["/"] else []

/-- The steps that count. -/
def counted (absolute : Bool) (ss : List String) : List String :=
  if absolute = false ∧ ss.head? = some "." then "." :: ss.tail.filter (!isIdle ·)
  else ss.filter (!isIdle ·)

theorem mem_of_mem_counted {absolute : Bool} {ss : List String} {s : String}
    (h : s ∈ counted absolute ss) : s ∈ ss := by
  rw [counted] at h
  split at h
  · next hdot =>
    obtain rfl | h := List.mem_cons.mp h
    · exact List.mem_of_head? hdot.2
    · exact List.mem_of_mem_tail (List.mem_of_mem_filter h)
  · exact List.mem_of_mem_filter h

theorem counted_concat (absolute : Bool) (ss : List String) (s : String) :
    counted absolute (ss ++ [s]) =
      counted absolute ss ++ if counts absolute ss.reverse s then [s] else [] := by
  have hlast : [s].filter (!isIdle ·) = if !isIdle s then [s] else [] := by
    cases hidle : isIdle s <;> simp [hidle]
  cases ss with
  | nil =>
    rw [counted, counted, counts, List.nil_append, List.reverse_nil, List.isEmpty_nil, hlast]
    cases absolute with
    | true => simp
    | false =>
      by_cases hs : s = "."
      · simp [hs]
      · simp [hs]
  | cons t ss =>
    have hcounts : counts absolute (t :: ss).reverse s = !isIdle s := by simp [counts]
    rw [hcounts, ← hlast, counted, counted, List.cons_append, List.head?_cons, List.head?_cons,
      List.tail_cons, List.tail_cons, ← List.cons_append, List.filter_append, List.filter_append]
    split <;> rfl

theorem components_eq (p : String) :
    components p = rootPart (isAbsolute p) ++ counted (isAbsolute p) (stepsFromStart p) := by
  cases h : isAbsolute p with
  | true =>
    rw [components_of_absolute h, steps_of_absolute h, counted, if_neg (by simp)]
    rfl
  | false =>
    rw [components_of_relative h, steps_of_relative h, counted]
    simp [rootPart]

/-- A path is absolute if its components say so. -/
theorem isAbsolute_eq (p : String) : isAbsolute p = ((components p).head? == some "/") := by
  cases h : isAbsolute p with
  | true => rw [components_of_absolute h]; rfl
  | false =>
    refine (beq_eq_false_iff_ne.mpr fun hhead => ?_).symm
    have hmem : "/" ∈ components p := List.mem_of_head? hhead
    rw [components_eq, h] at hmem
    refine slashless_of_mem_steps (p := p) (s := "/") ?_ (by decide)
    rw [steps_of_relative h]
    exact mem_of_mem_counted hmem

theorem components_ofSteps {absolute : Bool} {ss : List String} (h : AreSteps absolute ss) :
    components (ofSteps absolute ss) = rootPart absolute ++ counted absolute ss := by
  by_cases hne : ss = []
  · subst hne
    cases absolute <;> decide
  · obtain ⟨habsolute, hsteps⟩ := ofSteps_spec hne h
    rw [components_eq, habsolute, hsteps]

/-! ## A path and the paths above it -/

/-- The components of the paths that end at one of the steps are the beginnings of the components
of the last of them. -/
theorem map_components_endings {absolute : Bool} {rs : List String}
    (h : AreSteps absolute rs.reverse) :
    (endings absolute rs).map components =
      (counted absolute rs.reverse).inits.reverse.map (rootPart absolute ++ ·) := by
  induction rs with
  | nil =>
    rw [List.reverse_nil] at h
    rw [endings, List.map_singleton, components_ofSteps h]
    cases absolute <;> rfl
  | cons s before ih =>
    rw [List.reverse_cons] at h ⊢
    have hcounted := counted_concat absolute before.reverse s
    rw [List.reverse_reverse] at hcounted
    rw [endings, hcounted]
    split
    · next hcounts =>
      rw [List.map_cons, List.reverse_cons, components_ofSteps h, hcounted, if_pos hcounts,
        List.inits_append, ih h.of_concat]
      simp
    · rw [List.append_nil, ih h.of_concat]

theorem head?_reverse_inits {α : Type} (l : List α) : l.inits.reverse.head? = some l := by
  rw [List.inits_eq_tails, List.reverse_reverse, List.head?_map]
  cases h : l.reverse with
  | nil => rw [List.reverse_eq_nil_iff.mp h]; rfl
  | cons a rest => rw [List.tails, List.head?_cons, Option.map_some, ← h, List.reverse_reverse]

/-- **What is above a path.**  The components of a path and of the paths above it are the beginnings
of its components, longest first. -/
theorem map_components_ancestors (p : String) :
    (ancestors p).map components =
      (counted (isAbsolute p) (stepsFromStart p)).inits.reverse.map
        (rootPart (isAbsolute p) ++ ·) := by
  by_cases hp : p = ""
  · subst hp
    decide
  · have hends := @map_components_endings (isAbsolute p) (stepsFromStart p).reverse
    rw [List.reverse_reverse] at hends
    rw [ancestors, List.map_cons, List.map_tail, hends (areSteps_stepsFromStart hp),
      components_eq, ← List.map_tail, ← List.map_cons (f := (rootPart _ ++ ·)),
      List.cons_head?_tail (head?_reverse_inits _)]

example : ancestors "./a//b/" = ["./a//b/", "./a", ".", ""] := by decide

theorem pairwise_inits {α : Type} (l : List α) :
    l.inits.Pairwise fun front longer => front <+: longer ∧ front ≠ longer := by
  induction l with
  | nil => exact List.pairwise_singleton _ _
  | cons a l ih =>
    rw [List.inits_cons, List.pairwise_cons, List.pairwise_map]
    refine ⟨fun longer hlonger => ?_, ih.imp fun ⟨hstart, hne⟩ => ?_⟩
    · obtain ⟨rest, -, rfl⟩ := List.mem_map.mp hlonger
      exact ⟨List.nil_prefix, (List.cons_ne_nil a rest).symm⟩
    · exact ⟨(List.prefix_cons_inj a).mpr hstart, fun heq => hne (List.cons.inj heq).2⟩

/-- Each of the paths above a path is above those before it. -/
theorem pairwise_ancestors (p : String) :
    (ancestors p).Pairwise fun lower upper => IsAbove upper lower := by
  have hall : ((ancestors p).map components).Pairwise fun lower upper =>
      upper <+: lower ∧ upper ≠ lower := by
    rw [map_components_ancestors, List.pairwise_map, List.pairwise_reverse]
    refine (pairwise_inits _).imp fun ⟨hstart, hne⟩ => ⟨?_, ?_⟩
    · exact (List.prefix_append_right_inj _).mpr hstart
    · exact fun heq => hne (List.append_cancel_left heq)
  exact List.pairwise_map.mp hall

/-- `place` is `p`, or above it.  Above an absolute path all paths are absolute, and above others
none is. -/
structure AtOrAbove (place p : String) : Prop where
  alike : isAbsolute place = isAbsolute p
  start : components place <+: components p

theorem atOrAbove_of_mem_ancestors {place p : String} (h : place ∈ ancestors p) :
    AtOrAbove place p := by
  have hmem : components place ∈ (ancestors p).map components := List.mem_map_of_mem h
  rw [map_components_ancestors] at hmem
  obtain ⟨front, hfront, hplace⟩ := List.mem_map.mp hmem
  rw [List.mem_reverse, List.mem_inits] at hfront
  have hstart : components place <+: components p := by
    rw [← hplace, components_eq p]
    exact (List.prefix_append_right_inj _).mpr hfront
  refine ⟨?_, hstart⟩
  cases hp : isAbsolute p with
  | true =>
    rw [isAbsolute_eq, ← hplace, hp]
    rfl
  | false =>
    obtain ⟨rest, hrest⟩ := hstart
    rw [isAbsolute_eq, beq_eq_false_iff_ne] at hp ⊢
    refine mt (fun hhead => ?_) hp
    rw [← hrest, List.head?_append, hhead, Option.some_or]

/-- Every way of writing a path at or above another means one of the paths of the list. -/
theorem AtOrAbove.exists_mem_ancestors {place p : String} (h : AtOrAbove place p) :
    ∃ listed ∈ ancestors p, components listed = components place := by
  rw [← List.mem_map, map_components_ancestors]
  have hstart := h.start
  rw [components_eq place, components_eq p, h.alike, List.prefix_append_right_inj] at hstart
  rw [components_eq place, h.alike]
  exact List.mem_map_of_mem (List.mem_reverse.mpr ((List.mem_inits _ _).mpr hstart))

/-! ## The nearest -/

theorem IsAbove.asymm {p q : String} (h : IsAbove p q) : ¬ IsAbove q p := fun h' =>
  h.2 (h.1.eq_of_length_le h'.1.length_le)

theorem IsAbove.not_atOrAbove {p q : String} (h : IsAbove p q) : ¬ AtOrAbove q p := fun hat =>
  h.2 (h.1.eq_of_length_le hat.start.length_le)

/-- Of two paths at or above one path, one is above the other unless it is at or above it. -/
theorem AtOrAbove.of_not_isAbove {p q start : String} (hp : AtOrAbove p start)
    (hq : AtOrAbove q start) (h : ¬ IsAbove p q) : AtOrAbove q p := by
  refine ⟨hq.alike.trans hp.alike.symm, ?_⟩
  obtain hstart | hstart := List.prefix_or_prefix_of_prefix hp.start hq.start
  · by_cases heq : components p = components q
    · rw [heq]
    · exact absurd ⟨hstart, heq⟩ h
  · exact hstart

/-- The nearest of the paths at or above a path that have a property: all others are at or above
it. -/
structure Nearest (has : String → Prop) (start place : String) : Prop where
  atOrAbove : AtOrAbove place start
  holds : has place
  first : ∀ other, AtOrAbove other start → has other → AtOrAbove other place

/-- In a list with an order, the first item with a property has no other one with it before it. -/
theorem find?_eq_some_iff_of_pairwise {α : Type} {before : α → α → Prop} {l : List α}
    {has : α → Bool} {a : α} (hl : l.Pairwise before)
    (hasymm : ∀ x y, before x y → ¬ before y x) :
    l.find? has = some a ↔ a ∈ l ∧ has a = true ∧ ∀ b ∈ l, has b = true → ¬ before b a := by
  constructor
  · intro h
    obtain ⟨ha, lower, upper, rfl, hlower⟩ := List.find?_eq_some_iff_append.mp h
    refine ⟨List.mem_of_find?_eq_some h, ha, fun b hb hhas hba => ?_⟩
    obtain hb | hb := List.mem_append.mp hb
    · have hnot := hlower b hb
      rw [hhas] at hnot
      cases hnot
    · obtain rfl | hb := List.mem_cons.mp hb
      · exact hasymm b b hba hba
      · have hupper := (List.pairwise_cons.mp (List.pairwise_append.mp hl).2.1).1
        exact hasymm a b (hupper b hb) hba
  · rintro ⟨hmem, ha, hnone⟩
    obtain ⟨lower, upper, rfl⟩ := List.append_of_mem hmem
    refine List.find?_eq_some_iff_append.mpr ⟨ha, lower, upper, rfl, fun b hb => ?_⟩
    have hba := (List.pairwise_append.mp hl).2.2 b hb a List.mem_cons_self
    rw [Bool.not_eq_true']
    exact Bool.eq_false_iff.mpr fun hhas => hnone b (List.mem_append_left _ hb) hhas hba

section Search

variable {has : String → Bool} {start place : String}
  (hsame : ∀ p q, components p = components q → has p = has q)

include hsame

/-- **The first is the nearest.**  Of a path and the paths above it, the first with a property is
the nearest one, if the property does not depend on how a path is written. -/
theorem find?_ancestors_eq_some_iff :
    (ancestors start).find? has = some place ↔
      place ∈ ancestors start ∧ Nearest (has · = true) start place := by
  rw [find?_eq_some_iff_of_pairwise (pairwise_ancestors start) fun _ _ => IsAbove.asymm]
  refine and_congr_right fun hmem => ?_
  have hplace := atOrAbove_of_mem_ancestors hmem
  constructor
  · rintro ⟨hhas, hnone⟩
    refine ⟨hplace, hhas, fun other hother hholds => ?_⟩
    obtain ⟨listed, hlisted, hcomponents⟩ := hother.exists_mem_ancestors
    refine hplace.of_not_isAbove hother fun habove => ?_
    refine hnone listed hlisted (hsame _ _ hcomponents ▸ hholds) ?_
    rwa [IsAbove, hcomponents]
  · intro hnearest
    refine ⟨hnearest.holds, fun other hother hholds habove => ?_⟩
    exact habove.not_atOrAbove (hnearest.first other (atOrAbove_of_mem_ancestors hother) hholds)

/-- No path at or above a path has a property if none of the listed ones has it. -/
theorem find?_ancestors_eq_none_iff :
    (ancestors start).find? has = none ↔ ∀ place, AtOrAbove place start → ¬ has place = true := by
  rw [List.find?_eq_none]
  constructor
  · intro h place hplace
    obtain ⟨listed, hlisted, hcomponents⟩ := hplace.exists_mem_ancestors
    rw [← hsame _ _ hcomponents]
    exact h listed hlisted
  · exact fun h place hplace => h place (atOrAbove_of_mem_ancestors hplace)

end Search

end LintSetup.Path
