import LintSetup.Glob.Basic
import Mathlib.Data.List.Basic

/-!
# What globs stand for

A glob is matched by keeping all that can be left of a text after each of its parts.  What is left
after a part is an end of the text, and which beginnings a part can take off does not depend on what
comes after them.  So a part stands for a set of texts, and a sequence of parts for the texts that
are put together from one text for each part.

* `Part.Takes`, `PartsTake` --- these sets;
* `mem_rests_iff`, `mem_restsOfParts_iff` --- what can be left, said with them;
* `matchesBytes_iff` --- so a glob matches what its parts stand for, or everything if it is nothing
  but any directories;
* `partsTake_concat_dirsBelow_iff` --- with `dirsBelow` at its end, a sequence of parts stands for
  what is below the texts that it stood for.
-/

namespace LintSetup.Glob

open Text (Bytes)

/-! ## The texts of a part -/

mutual

/-- A part stands for a text. -/
inductive Part.Takes : Part → Bytes → Prop
  | literal (bytes : Bytes) : Part.Takes (.literal bytes) bytes
  | anyByte {b : UInt8} (h : b ≠ slash) : Part.Takes .anyByte [b]
  | star {q : Bytes} (h : slash ∉ q) : Part.Takes .star q
  | oneOf {negated : Bool} {ranges : List (UInt8 × UInt8)} {b : UInt8}
    (h : inRanges ranges b ≠ negated) : Part.Takes (.oneOf negated ranges) [b]
  | noDirs : Part.Takes .dirsFirst []
  | dirsFirst (q : Bytes) : Part.Takes .dirsFirst (q ++ [slash])
  | noDirsBetween : Part.Takes .dirsBetween [slash]
  | dirsBetween (q : Bytes) : Part.Takes .dirsBetween (slash :: (q ++ [slash]))
  | dirsBelow (q : Bytes) : Part.Takes .dirsBelow (slash :: q)
  | blank {branches : List (List Part)} (h : areBlankBranches branches = true) :
    Part.Takes (.choice branches) []
  | choice {branches : List (List Part)} {branch : List Part} {q : Bytes} (hmem : branch ∈ branches)
    (hblank : areBlank branch = false) (h : PartsTake branch q) : Part.Takes (.choice branches) q

/-- A sequence of parts stands for a text. -/
inductive PartsTake : List Part → Bytes → Prop
  | nil : PartsTake [] []
  | cons {p : Part} {ps : List Part} {q r : Bytes} (h : p.Takes q) (hs : PartsTake ps r) :
    PartsTake (p :: ps) (q ++ r)

end

/-! ## What can be left -/

theorem stripStart_eq_some_iff {start bs rest : Bytes} :
    stripStart start bs = some rest ↔ bs = start ++ rest := by
  induction start generalizing bs with
  | nil => simp [stripStart, eq_comm]
  | cons l ls ih =>
    cases bs with
    | nil => simp [stripStart]
    | cons b bs =>
      rw [stripStart]
      split
      · next h => rw [ih, eq_of_beq h, List.cons_append, List.cons.injEq, eq_self, true_and]
      · next h =>
        refine iff_of_false (by simp) fun heq => h ?_
        rw [(List.cons.inj heq).1]
        exact beq_self_eq_true l

theorem mem_restsOfStar_iff {t u : Bytes} :
    u ∈ restsOfStar t ↔ ∃ q, t = q ++ u ∧ slash ∉ q := by
  induction t with
  | nil => simp [restsOfStar]
  | cons b bs ih =>
    rw [restsOfStar, List.mem_cons]
    constructor
    · rintro (rfl | hu)
      · exact ⟨[], rfl, List.not_mem_nil⟩
      · split at hu
        · cases hu
        · next hb =>
          obtain ⟨q, rfl, hq⟩ := ih.mp hu
          refine ⟨b :: q, rfl, ?_⟩
          rw [List.mem_cons, not_or]
          exact ⟨fun heq => hb (by rw [heq]; exact beq_self_eq_true b), hq⟩
    · rintro ⟨_ | ⟨c, q⟩, heq, hq⟩
      · exact .inl heq.symm
      · obtain ⟨rfl, rfl⟩ := List.cons.inj heq
        obtain ⟨hc, hq⟩ := not_or.mp (mt List.mem_cons.mpr hq)
        have hb : (b == slash) = false := beq_false_of_ne (Ne.symm hc)
        rw [hb, if_neg Bool.false_ne_true]
        exact .inr (ih.mpr ⟨q, rfl, hq⟩)

theorem mem_afterSlashes_iff {t u : Bytes} :
    u ∈ afterSlashes t ↔ ∃ q, t = q ++ slash :: u := by
  induction t with
  | nil => simp [afterSlashes]
  | cons b bs ih =>
    rw [afterSlashes]
    constructor
    · intro hu
      have hcases : (b = slash ∧ u = bs) ∨ u ∈ afterSlashes bs := by
        split at hu
        · next hb => exact (List.mem_cons.mp hu).imp_left fun heq => ⟨eq_of_beq hb, heq⟩
        · exact .inr hu
      obtain ⟨rfl, rfl⟩ | hu := hcases
      · exact ⟨[], rfl⟩
      · obtain ⟨q, rfl⟩ := ih.mp hu
        exact ⟨b :: q, rfl⟩
    · rintro ⟨_ | ⟨c, q⟩, heq⟩
      · obtain ⟨rfl, rfl⟩ := List.cons.inj heq
        exact List.mem_cons_self
      · obtain ⟨rfl, rfl⟩ := List.cons.inj heq
        have hu := ih.mpr ⟨q, rfl⟩
        split
        · exact List.mem_cons_of_mem _ hu
        · exact hu

theorem mem_ends_iff {t u : Bytes} : u ∈ ends t ↔ ∃ q, t = q ++ u := by
  induction t with
  | nil => simp [ends]
  | cons b bs ih =>
    rw [ends, List.mem_cons, ih]
    constructor
    · rintro (rfl | ⟨q, rfl⟩)
      · exact ⟨[], rfl⟩
      · exact ⟨b :: q, rfl⟩
    · rintro ⟨_ | ⟨c, q⟩, heq⟩
      · exact .inl heq.symm
      · exact .inr ⟨q, (List.cons.inj heq).2⟩

theorem mem_rests_anyByte_iff {t u : Bytes} :
    u ∈ Part.rests .anyByte t ↔ ∃ q, t = q ++ u ∧ Part.Takes .anyByte q := by
  constructor
  · intro hu
    match t with
    | [] => cases hu
    | b :: bs =>
      rw [Part.rests] at hu
      split at hu
      · cases hu
      · next hb =>
        obtain rfl := List.mem_singleton.mp hu
        exact ⟨[b], rfl, .anyByte (ne_of_beq_false (Bool.eq_false_iff.mpr hb))⟩
  · rintro ⟨_, rfl, ⟨⟩⟩
    next b hb =>
    rw [List.singleton_append, Part.rests, if_neg (by simpa using hb)]
    exact List.mem_singleton_self u

theorem mem_rests_oneOf_iff {negated : Bool} {ranges : List (UInt8 × UInt8)} {t u : Bytes} :
    u ∈ Part.rests (.oneOf negated ranges) t ↔
      ∃ q, t = q ++ u ∧ Part.Takes (.oneOf negated ranges) q := by
  constructor
  · intro hu
    match t with
    | [] => cases hu
    | b :: bs =>
      rw [Part.rests] at hu
      split at hu
      · next hb =>
        obtain rfl := List.mem_singleton.mp hu
        exact ⟨[b], rfl, .oneOf (bne_iff_ne.mp hb)⟩
      · cases hu
  · rintro ⟨_, rfl, ⟨⟩⟩
    next b hb =>
    rw [List.singleton_append, Part.rests, if_pos (bne_iff_ne.mpr hb)]
    exact List.mem_singleton_self u

theorem mem_rests_dirsFirst_iff {t u : Bytes} :
    u ∈ Part.rests .dirsFirst t ↔ ∃ q, t = q ++ u ∧ Part.Takes .dirsFirst q := by
  rw [Part.rests, List.mem_cons, mem_afterSlashes_iff]
  constructor
  · rintro (rfl | ⟨q, rfl⟩)
    · exact ⟨[], rfl, .noDirs⟩
    · exact ⟨q ++ [slash], by simp, .dirsFirst q⟩
  · rintro ⟨_, rfl, _ | _⟩
    · exact .inl rfl
    · next q => exact .inr ⟨q, by simp⟩

theorem mem_rests_dirsBetween_iff {t u : Bytes} :
    u ∈ Part.rests .dirsBetween t ↔ ∃ q, t = q ++ u ∧ Part.Takes .dirsBetween q := by
  constructor
  · intro hu
    match t with
    | [] => cases hu
    | b :: bs =>
      rw [Part.rests] at hu
      split at hu
      · next hb =>
        obtain rfl := eq_of_beq hb
        rw [List.mem_cons, mem_afterSlashes_iff] at hu
        obtain rfl | ⟨q, rfl⟩ := hu
        · exact ⟨[slash], rfl, .noDirsBetween⟩
        · exact ⟨slash :: (q ++ [slash]), by simp, .dirsBetween q⟩
      · cases hu
  · rintro ⟨_, rfl, _ | _⟩
    · rw [List.singleton_append, Part.rests, if_pos (beq_self_eq_true slash)]
      exact List.mem_cons_self
    · next q =>
      rw [List.cons_append, Part.rests, if_pos (beq_self_eq_true slash)]
      exact List.mem_cons_of_mem _ (mem_afterSlashes_iff.mpr ⟨q, by simp⟩)

theorem mem_rests_dirsBelow_iff {t u : Bytes} :
    u ∈ Part.rests .dirsBelow t ↔ ∃ q, t = q ++ u ∧ Part.Takes .dirsBelow q := by
  constructor
  · intro hu
    match t with
    | [] => cases hu
    | b :: bs =>
      rw [Part.rests] at hu
      split at hu
      · next hb =>
        obtain rfl := eq_of_beq hb
        obtain ⟨q, rfl⟩ := mem_ends_iff.mp hu
        exact ⟨slash :: q, rfl, .dirsBelow q⟩
      · cases hu
  · rintro ⟨_, rfl, ⟨⟩⟩
    next q =>
    rw [List.cons_append, Part.rests, if_pos (beq_self_eq_true slash)]
    exact mem_ends_iff.mpr ⟨q, rfl⟩

/-- What is left of several texts is what is left of one of them. -/
theorem mem_restsOfParts {ps : List Part} {texts : List Bytes} {u : Bytes} :
    u ∈ restsOfParts ps texts ↔ ∃ t ∈ texts, u ∈ restsOfParts ps [t] := by
  induction ps generalizing texts with
  | nil => simp [restsOfParts]
  | cons p rest ih =>
    have hstep : ∀ {texts : List Bytes}, u ∈ restsOfParts (p :: rest) texts ↔
        ∃ v, (∃ t ∈ texts, v ∈ p.rests t) ∧ u ∈ restsOfParts rest [v] := by
      intro texts
      rw [restsOfParts, ih]
      simp only [List.mem_eraseDups, List.mem_flatMap]
    rw [hstep]
    simp only [hstep, List.mem_singleton, exists_eq_left]
    constructor
    · rintro ⟨v, ⟨t, ht, hv⟩, hu⟩
      exact ⟨t, ht, v, hv, hu⟩
    · rintro ⟨t, ht, v, hv, hu⟩
      exact ⟨v, ⟨t, ht, hv⟩, hu⟩

theorem mem_restsOfParts_cons {p : Part} {ps : List Part} {t u : Bytes} :
    u ∈ restsOfParts (p :: ps) [t] ↔ ∃ v ∈ p.rests t, u ∈ restsOfParts ps [v] := by
  rw [restsOfParts, mem_restsOfParts]
  simp

theorem areBlankBranches_iff {branches : List (List Part)} :
    areBlankBranches branches = true ↔ ∀ branch ∈ branches, areBlank branch = true := by
  induction branches with
  | nil => simp [areBlankBranches]
  | cons branch rest ih => rw [areBlankBranches, Bool.and_eq_true, ih, List.forall_mem_cons]

mutual

/-- What can be left after a part is what follows a text that the part stands for. -/
theorem mem_rests_iff : ∀ (p : Part) {t u : Bytes},
    u ∈ p.rests t ↔ ∃ q, t = q ++ u ∧ p.Takes q
  | .literal bytes, t, u => by
    rw [Part.rests, Option.mem_toList, stripStart_eq_some_iff]
    constructor
    · rintro rfl
      exact ⟨bytes, rfl, .literal bytes⟩
    · rintro ⟨_, rfl, ⟨⟩⟩
      rfl
  | .anyByte, t, u => mem_rests_anyByte_iff
  | .star, t, u => by
    rw [Part.rests, mem_restsOfStar_iff]
    constructor
    · rintro ⟨q, rfl, hq⟩
      exact ⟨q, rfl, .star hq⟩
    · rintro ⟨q, rfl, ⟨⟩⟩
      exact ⟨q, rfl, ‹_›⟩
  | .oneOf negated ranges, t, u => mem_rests_oneOf_iff
  | .dirsFirst, t, u => mem_rests_dirsFirst_iff
  | .dirsBetween, t, u => mem_rests_dirsBetween_iff
  | .dirsBelow, t, u => mem_rests_dirsBelow_iff
  | .choice branches, t, u => by
    have hbranches := mem_restsOfBranches_iff branches (t := t) (u := u)
    rw [Part.rests]
    split
    · next hblank =>
      rw [List.mem_singleton]
      constructor
      · rintro rfl
        exact ⟨[], rfl, .blank hblank⟩
      · rintro ⟨q, rfl, hq⟩
        cases hq with
        | blank => rfl
        | choice hmem hfull =>
          rw [areBlankBranches_iff.mp hblank _ hmem] at hfull
          cases hfull
    · next hblank =>
      rw [hbranches]
      constructor
      · rintro ⟨q, rfl, branch, hmem, hfull, hq⟩
        exact ⟨q, rfl, .choice hmem hfull hq⟩
      · rintro ⟨q, rfl, hq⟩
        cases hq with
        | blank h => exact absurd h hblank
        | choice hmem hfull hq => exact ⟨q, rfl, _, hmem, hfull, hq⟩

theorem mem_restsOfBranches_iff : ∀ (branches : List (List Part)) {t u : Bytes},
    u ∈ restsOfBranches branches t ↔
      ∃ q, t = q ++ u ∧ ∃ branch ∈ branches, areBlank branch = false ∧ PartsTake branch q
  | [], t, u => by simp [restsOfBranches]
  | branch :: rest, t, u => by
    have hbranch := mem_restsOfParts_iff branch (t := t) (u := u)
    have hrest := mem_restsOfBranches_iff rest (t := t) (u := u)
    rw [restsOfBranches, List.mem_append, hrest]
    constructor
    · rintro (hu | ⟨q, rfl, other, hmem, hfull, hq⟩)
      · split at hu
        · cases hu
        · next hfull =>
          obtain ⟨q, rfl, hq⟩ := hbranch.mp hu
          exact ⟨q, rfl, branch, List.mem_cons_self, Bool.eq_false_iff.mpr hfull, hq⟩
      · exact ⟨q, rfl, other, List.mem_cons_of_mem _ hmem, hfull, hq⟩
    · rintro ⟨q, rfl, other, hmem, hfull, hq⟩
      rcases List.mem_cons.mp hmem with rfl | hmem
      · rw [hfull, if_neg Bool.false_ne_true]
        exact .inl (hbranch.mpr ⟨q, rfl, hq⟩)
      · exact .inr ⟨q, rfl, other, hmem, hfull, hq⟩

/-- What can be left after a sequence of parts is what follows a text that it stands for. -/
theorem mem_restsOfParts_iff : ∀ (ps : List Part) {t u : Bytes},
    u ∈ restsOfParts ps [t] ↔ ∃ q, t = q ++ u ∧ PartsTake ps q
  | [], t, u => by
    rw [restsOfParts, List.mem_singleton]
    constructor
    · rintro rfl
      exact ⟨[], rfl, .nil⟩
    · rintro ⟨_, rfl, ⟨⟩⟩
      rfl
  | p :: rest, t, u => by
    rw [mem_restsOfParts_cons]
    constructor
    · rintro ⟨v, hv, hu⟩
      obtain ⟨q, rfl, hq⟩ := (mem_rests_iff p).mp hv
      obtain ⟨r, rfl, hr⟩ := (mem_restsOfParts_iff rest).mp hu
      exact ⟨q ++ r, (List.append_assoc _ _ _).symm, .cons hq hr⟩
    · rintro ⟨_, rfl, ⟨⟩⟩
      next q r hq hr =>
      exact ⟨r ++ u, (mem_rests_iff p).mpr ⟨q, List.append_assoc _ _ _, hq⟩,
        (mem_restsOfParts_iff rest).mpr ⟨r, rfl, hr⟩⟩

end

/-! ## Whole texts -/

/-- A glob matches the texts that its parts stand for; one that is nothing but any directories
matches everything. -/
theorem matchesBytes_iff {g : Glob} {t : Bytes} :
    g.matchesBytes t = true ↔ g.parts = [.dirsFirst] ∨ PartsTake g.parts t := by
  have hwhole : ∀ ps : List Part,
      (restsOfParts ps [t]).any List.isEmpty = true ↔ PartsTake ps t := by
    intro ps
    rw [List.any_eq_true]
    constructor
    · rintro ⟨u, hu, hempty⟩
      obtain rfl := List.isEmpty_iff.mp hempty
      obtain ⟨q, rfl, hq⟩ := (mem_restsOfParts_iff ps).mp hu
      rwa [List.append_nil]
    · intro h
      exact ⟨[], (mem_restsOfParts_iff ps).mpr ⟨t, (List.append_nil t).symm, h⟩, rfl⟩
  rw [matchesBytes]
  split
  · next h => exact iff_of_true rfl (.inl h)
  · next h => rw [hwhole, or_iff_right h]

theorem partsTake_append_iff {ps qs : List Part} {t : Bytes} :
    PartsTake (ps ++ qs) t ↔ ∃ q r, t = q ++ r ∧ PartsTake ps q ∧ PartsTake qs r := by
  induction ps generalizing t with
  | nil =>
    constructor
    · exact fun h => ⟨[], t, rfl, .nil, h⟩
    · rintro ⟨q, r, rfl, hq, hr⟩
      cases hq
      exact hr
  | cons p ps ih =>
    constructor
    · intro h
      cases h with
      | @cons _ _ q s hp hs =>
        obtain ⟨q', r, rfl, hq', hr⟩ := ih.mp hs
        exact ⟨q ++ q', r, (List.append_assoc _ _ _).symm, .cons hp hq', hr⟩
    · rintro ⟨q, r, rfl, hq, hr⟩
      cases hq with
      | cons hp hs =>
        rw [List.append_assoc]
        exact .cons hp (ih.mpr ⟨_, _, rfl, hs, hr⟩)

/-- Any directories below what a sequence of parts stands for. -/
theorem partsTake_concat_dirsBelow_iff {ps : List Part} {t : Bytes} :
    PartsTake (ps ++ [.dirsBelow]) t ↔ ∃ q r, t = q ++ slash :: r ∧ PartsTake ps q := by
  rw [partsTake_append_iff]
  constructor
  · rintro ⟨q, r, rfl, hq, hr⟩
    cases hr with
    | cons hp hs =>
      cases hp
      cases hs
      exact ⟨q, _, by rw [List.append_nil], hq⟩
  · rintro ⟨q, r, rfl, hq⟩
    have hbelow : PartsTake [.dirsBelow] (slash :: r) := by
      rw [← List.append_nil (slash :: r)]
      exact .cons (.dirsBelow r) .nil
    exact ⟨q, slash :: r, rfl, hq, hbelow⟩

end LintSetup.Glob
