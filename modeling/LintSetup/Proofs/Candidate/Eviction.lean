import LintSetup.Candidate.Pool
import Mathlib.Data.List.Basic

/-!
# What evictions leave of a pool

A pool is a list of candidates with flags, and an eviction clears one flag.  Read by position, a
list of evictions therefore clears the flags of the positions it names, whatever their order and
however often they are named (`getElem?_entries_evictAll`).

An inspection evicts what it has found among the live candidates by a test.  Such an eviction is
described without positions (`entries_evictAll_live`): every candidate keeps its place, and its flag
stays set if it does not meet the test.

In numbers, evicting live candidates, each of them once, leaves as many less
(`length_live_evictAll`).
-/

namespace LintSetup.Pool

/-- The candidates of a pool, live or not. -/
def candidates (p : Pool) : List Candidate := p.entries.map (·.1)

/-! ## The live candidates -/

/-- A live candidate stands at its identifier with its flag set. -/
theorem mem_live {p : Pool} {id : Nat} {c : Candidate} :
    (id, c) ∈ p.live ↔ p.entries[id]? = some (c, true) := by
  rw [live, List.mem_filterMap]
  constructor
  · rintro ⟨⟨⟨c', flag⟩, id'⟩, hmem, h⟩
    rw [List.mem_zipIdx_iff_getElem?] at hmem
    cases flag with
    | false => simp at h
    | true =>
      simp only [if_true, Option.some.injEq, Prod.mk.injEq] at h
      rw [← h.1, ← h.2]
      exact hmem
  · intro h
    exact ⟨((c, true), id), List.mem_zipIdx_iff_getElem?.mpr h, rfl⟩

/-- A live candidate is one of the candidates. -/
theorem mem_candidates_of_mem_live {p : Pool} {m : Nat × Candidate} (h : m ∈ p.live) :
    m.2 ∈ p.candidates := by
  have hget := mem_live.mp h
  exact List.mem_map.mpr ⟨(m.2, true), List.mem_of_getElem? hget, rfl⟩

/-- Without their identifiers, the live candidates are those whose flag is set. -/
theorem map_snd_live (p : Pool) :
    p.live.map (·.2) = (p.entries.filter (·.2)).map (·.1) := by
  have hread : ∀ (l : List (Candidate × Bool)) (n : Nat),
      ((l.zipIdx n).filterMap fun m => if m.1.2 then some (m.2, m.1.1) else none).map (·.2) =
        (l.filter (·.2)).map (·.1) := by
    intro l
    induction l with
    | nil => intro n; rfl
    | cons m l ih =>
      intro n
      obtain ⟨c, flag⟩ := m
      cases flag <;> simpa [List.zipIdx_cons] using ih (n + 1)
  exact hread p.entries 0

@[simp] theorem map_snd_live_ofList (cs : List Candidate) :
    (ofList cs).live.map (·.2) = cs := by
  rw [map_snd_live, ofList, List.filter_map]
  simp [Function.comp_def]

/-! ## Evictions by position -/

/-- An eviction clears the flag at one position. -/
theorem getElem?_entries_evict (p : Pool) (id i : Nat) :
    (p.evict id).entries[i]? = p.entries[i]?.map fun m => (m.1, m.2 && decide (i ≠ id)) := by
  by_cases hi : i = id
  · subst hi
    unfold evict
    split
    · next c h => simp [h, List.getElem?_set_self (List.getElem?_eq_some_iff.mp h).1]
    · next h =>
      cases hget : p.entries[i]? with
      | none => rfl
      | some m =>
        obtain ⟨c, flag⟩ := m
        cases flag with
        | false => simp
        | true => exact absurd hget (h c)
  · have hkeep : (p.evict id).entries[i]? = p.entries[i]? := by
      unfold evict
      split
      · exact List.getElem?_set_ne (Ne.symm hi)
      · rfl
    rw [hkeep]
    cases p.entries[i]? <;> simp [hi]

/-- A list of evictions clears the flags at the positions it names. -/
theorem getElem?_entries_evictAll (p : Pool) (ids : List Nat) (i : Nat) :
    (p.evictAll ids).entries[i]? =
      p.entries[i]?.map fun m => (m.1, m.2 && !ids.contains i) := by
  induction ids generalizing p with
  | nil =>
    have hstay : p.evictAll [] = p := rfl
    rw [hstay]
    cases p.entries[i]? <;> simp
  | cons id ids ih =>
    have hstep : p.evictAll (id :: ids) = (p.evict id).evictAll ids := rfl
    rw [hstep, ih, getElem?_entries_evict]
    cases p.entries[i]? with
    | none => rfl
    | some m => by_cases hi : i = id <;> simp [hi]

/-! ## Evictions by a test -/

/-- **Evicting the live candidates that meet a test.**  Every candidate keeps its place, and
afterwards those are live that were live and do not meet the test. -/
theorem entries_evictAll_live (p : Pool) (test : Candidate → Bool) :
    (p.evictAll ((p.live.filter fun m => test m.2).map (·.1))).entries =
      p.entries.map fun m => (m.1, m.2 && !test m.1) := by
  apply List.ext_getElem?
  intro i
  rw [getElem?_entries_evictAll, List.getElem?_map]
  cases hget : p.entries[i]? with
  | none => rfl
  | some m =>
    obtain ⟨c, flag⟩ := m
    cases flag with
    | false => rfl
    | true =>
      have hnamed : i ∈ (p.live.filter fun m => test m.2).map (·.1) ↔ test c = true := by
        rw [List.mem_map]
        constructor
        · rintro ⟨⟨id, c'⟩, hmem, rfl⟩
          rw [List.mem_filter, mem_live, hget] at hmem
          simpa using (Prod.mk.inj (Option.some.inj hmem.1)).1 ▸ hmem.2
        · intro htest
          exact ⟨(i, c), List.mem_filter.mpr ⟨mem_live.mpr hget, htest⟩, rfl⟩
      rw [Option.map_some, Option.map_some, List.contains_eq_mem]
      cases htest : test c <;> simp [hnamed, htest]

/-! ## Counting the live candidates -/

/-- A candidate is live when its flag is set. -/
theorem contains_iff {p : Pool} {id : Nat} :
    p.contains id = true ↔ ∃ c, p.entries[id]? = some (c, true) := by
  rw [contains]
  cases p.entries[id]? with
  | none => simp
  | some m =>
    obtain ⟨c, flag⟩ := m
    cases flag <;> simp

/-- The identifiers of the live candidates. -/
theorem mem_map_fst_live {p : Pool} {id : Nat} :
    id ∈ p.live.map (·.1) ↔ p.contains id = true := by
  rw [contains_iff, List.mem_map]
  constructor
  · rintro ⟨⟨id, c⟩, hmem, rfl⟩
    exact ⟨c, mem_live.mp hmem⟩
  · rintro ⟨c, h⟩
    exact ⟨(id, c), mem_live.mpr h, rfl⟩

/-- Live candidates stand in the order of their identifiers. -/
theorem pairwise_live (p : Pool) : p.live.Pairwise fun a b => a.1 < b.1 := by
  rw [live, List.pairwise_filterMap]
  have hindices : p.entries.zipIdx.Pairwise fun a b => a.2 < b.2 := by
    rw [← List.pairwise_map (f := Prod.snd), List.zipIdx_map_snd]
    exact List.pairwise_lt_range'
  refine hindices.imp ?_
  rintro ⟨⟨c, flag⟩, i⟩ ⟨⟨c', flag'⟩, j⟩ hij a ha b hb
  cases flag <;> cases flag' <;> simp at ha hb
  rw [← ha, ← hb]
  exact hij

theorem contains_evict (p : Pool) (id i : Nat) :
    (p.evict id).contains i = (p.contains i && decide (i ≠ id)) := by
  rw [contains, getElem?_entries_evict, contains]
  cases p.entries[i]? <;> rfl

theorem contains_evictAll (p : Pool) (ids : List Nat) (i : Nat) :
    (p.evictAll ids).contains i = (p.contains i && !ids.contains i) := by
  rw [contains, getElem?_entries_evictAll, contains]
  cases p.entries[i]? <;> rfl

/-- Evicting a candidate that is not live changes nothing. -/
theorem evict_eq_self {p : Pool} {id : Nat} (h : p.contains id = false) : p.evict id = p := by
  unfold evict
  split
  · next c hget => exact absurd (contains_iff.mpr ⟨c, hget⟩) (by simp [h])
  · rfl

/-- The number of live candidates. -/
theorem length_live (p : Pool) : p.live.length = p.entries.countP (·.2) := by
  rw [← List.length_map (·.2), map_snd_live, List.length_map, List.countP_eq_length_filter]

/-- Evicting a live candidate clears its flag and takes it off the number of live ones. -/
theorem evict_of_getElem? {p : Pool} {id : Nat} {c : Candidate}
    (h : p.entries[id]? = some (c, true)) :
    p.evict id = ⟨p.entries.set id (c, false), p.size - 1⟩ := by
  rw [evict, h]

/-- Evicting a live candidate leaves one less. -/
theorem length_live_evict {p : Pool} {id : Nat} (h : p.contains id = true) :
    (p.evict id).live.length + 1 = p.live.length := by
  obtain ⟨c, hget⟩ := contains_iff.mp h
  obtain ⟨hid, heq⟩ := List.getElem?_eq_some_iff.mp hget
  have hpos : 0 < p.entries.countP (·.2) :=
    List.countP_pos_iff.mpr ⟨(c, true), List.mem_of_getElem? hget, rfl⟩
  rw [length_live, length_live, evict_of_getElem? hget, List.countP_set hid, heq]
  simp
  omega

/-- Evicting a candidate leaves others live. -/
theorem contains_evict_of_notMem {ids : List Nat} {p : Pool} {id : Nat} (hid : id ∉ ids)
    (hlive : ∀ i ∈ ids, p.contains i = true) : ∀ i ∈ ids, (p.evict id).contains i = true := by
  intro i hi
  have hne : i ≠ id := fun h => hid (h ▸ hi)
  rw [contains_evict, hlive i hi, Bool.true_and, decide_eq_true hne]

/-- Evicting several live candidates leaves as many less. -/
theorem length_live_evictAll {ids : List Nat} (hids : ids.Nodup) {p : Pool}
    (hlive : ∀ id ∈ ids, p.contains id = true) :
    (p.evictAll ids).live.length + ids.length = p.live.length := by
  induction ids generalizing p with
  | nil => rfl
  | cons id rest ih =>
    obtain ⟨hid, hrest⟩ := List.nodup_cons.mp hids
    rw [List.forall_mem_cons] at hlive
    have hkept := contains_evict_of_notMem hid hlive.2
    have hstep : p.evictAll (id :: rest) = (p.evict id).evictAll rest := rfl
    have hone := length_live_evict hlive.1
    have hmany := ih hrest hkept
    rw [hstep, List.length_cons]
    omega

/-- An eviction leaves all candidates in their places. -/
theorem candidates_evictAll (p : Pool) (ids : List Nat) :
    (p.evictAll ids).candidates = p.candidates := by
  rw [candidates, candidates]
  apply List.ext_getElem?
  intro i
  rw [List.getElem?_map, List.getElem?_map, getElem?_entries_evictAll]
  cases p.entries[i]? <;> rfl

/-- Evicting several live candidates takes as many off the number that the pool keeps. -/
theorem size_evictAll_live {ids : List Nat} (hids : ids.Nodup) {p : Pool}
    (hlive : ∀ id ∈ ids, p.contains id = true) :
    (p.evictAll ids).size = p.size - ids.length := by
  induction ids generalizing p with
  | nil => rfl
  | cons id rest ih =>
    obtain ⟨hid, hrest⟩ := List.nodup_cons.mp hids
    rw [List.forall_mem_cons] at hlive
    obtain ⟨c, hget⟩ := contains_iff.mp hlive.1
    have hsize : (p.evict id).size = p.size - 1 := by rw [evict_of_getElem? hget]
    have hstep : p.evictAll (id :: rest) = (p.evict id).evictAll rest := rfl
    rw [hstep, ih hrest (contains_evict_of_notMem hid hlive.2), hsize, List.length_cons]
    omega

/-- All candidates are live at the start. -/
theorem length_live_ofList (cs : List Candidate) : (ofList cs).live.length = cs.length := by
  rw [← List.length_map (·.2), map_snd_live_ofList]

theorem contains_ofList {cs : List Candidate} {id : Nat} (hid : id < cs.length) :
    (ofList cs).contains id = true :=
  contains_iff.mpr ⟨cs[id], by simp [ofList, hid]⟩

end LintSetup.Pool
