import LintSetup.Proofs.Candidate.Eviction
import Mathlib.Data.List.Induction
import Mathlib.Data.List.Nodup

/-!
# A pool in use

The flags of a pool are what an eviction changes, the number of live candidates is kept beside them,
and an iteration reads the flags only when it comes to them, so that operations of every kind may
stand between two of its steps.  Here a pool is used by any list of operations, with any number of
iterations under way, and `after_ofList` says what comes of it.

The pool itself only remembers which candidates were ever named by an eviction: that is read off its
flags (`entries_evictAll_ofList`), and the number follows them (`size_evictAll`).

An iteration is described by the position that it has come to.  A step passes the candidates up to
the next live one, so that every candidate before the position was passed by exactly one step; what
was yielded are the candidates that were live before the step that passed them (`Iterated`).  One
operation either is such a step or does not touch the iteration (`Use.perform_cases`), which gives
the two cases of the induction, `Iterated.step` and `Iterated.keep`.
-/

namespace LintSetup.Pool

/-! ## Operations -/

/-- What can be done with a pool.  Iterations are numbered in the order in which they are started. -/
inductive Op where
  | evict (id : Nat)
  | contains (id : Nat)
  | get (id : Nat)
  | size
  | initialSize
  | iterate
  | advance (iteration : Nat)

/-- What an operation answers. -/
inductive Answer where
  | flag (b : Bool)
  | candidate (c : Option Candidate)
  | number (n : Nat)
  | reached (m : Option (Nat × Candidate))

/-- A pool in use, with the position that each iteration has come to. -/
structure Use where
  pool : Pool
  positions : List Nat

/-- The position after the next candidate of an iteration; without one, the iteration has come to the
end. -/
def advanced (p : Pool) (position : Nat) : Nat :=
  match p.next? position with
  | some m => m.1 + 1
  | none => p.initialSize

namespace Use

/-- One operation: its answer, and the pool in use after it.  An eviction answers whether the
candidate was live until then. -/
def perform (u : Use) : Op → Answer × Use
  | .evict id => (.flag (u.pool.contains id), { u with pool := u.pool.evict id })
  | .contains id => (.flag (u.pool.contains id), u)
  | .get id => (.candidate (u.pool.get? id), u)
  | .size => (.number u.pool.size, u)
  | .initialSize => (.number u.pool.initialSize, u)
  | .iterate => (.number u.positions.length, { u with positions := u.positions ++ [0] })
  | .advance k =>
    match u.positions[k]? with
    | none => (.reached none, u)
    | some position =>
      (.reached (u.pool.next? position),
        { u with positions := u.positions.set k (u.pool.advanced position) })

/-- A pool of candidates before anything is done with it. -/
def ofList (cs : List Candidate) : Use := ⟨Pool.ofList cs, []⟩

/-- The pool in use after several operations. -/
def after (u : Use) (ops : List Op) : Use := ops.foldl (fun u op => (u.perform op).2) u

/-- The position that an iteration has come to. -/
def position (u : Use) (k : Nat) : Nat := u.positions[k]?.getD 0

end Use

/-- The candidates that are evicted in the course of operations, known or not. -/
def evicted (ops : List Op) : List Nat :=
  ops.filterMap fun
    | .evict id => some id
    | _ => none

/-- What an operation yields for an iteration, given its answer. -/
def yielded? (k : Nat) : Op → Answer → Option (Nat × Candidate)
  | .advance j, .reached m => if j = k then m else none
  | _, _ => none

/-- The candidate that an operation takes out of the pool, given its answer. -/
def removed? : Op → Answer → Option Nat
  | .evict id, .flag true => some id
  | _, _ => none

namespace Use

/-- The operations with their answers. -/
def record (u : Use) : List Op → List (Op × Answer)
  | [] => []
  | op :: ops => (op, (u.perform op).1) :: (u.perform op).2.record ops

/-- What an iteration yields in the course of operations. -/
def yields (u : Use) (k : Nat) (ops : List Op) : List (Nat × Candidate) :=
  (u.record ops).filterMap fun m => yielded? k m.1 m.2

/-- The candidates for which an eviction answers that it took them out. -/
def removed (u : Use) (ops : List Op) : List Nat :=
  (u.record ops).filterMap fun m => removed? m.1 m.2

theorem after_concat (u : Use) (ops : List Op) (op : Op) :
    u.after (ops ++ [op]) = ((u.after ops).perform op).2 := by
  rw [after, List.foldl_concat, after]

theorem record_concat (u : Use) (ops : List Op) (op : Op) :
    u.record (ops ++ [op]) = u.record ops ++ [(op, ((u.after ops).perform op).1)] := by
  induction ops generalizing u with
  | nil => rfl
  | cons first ops ih =>
    rw [List.cons_append, record, ih, record, List.cons_append]
    rfl

theorem yields_concat (u : Use) (k : Nat) (ops : List Op) (op : Op) :
    u.yields k (ops ++ [op]) =
      u.yields k ops ++ (yielded? k op ((u.after ops).perform op).1).toList := by
  rw [yields, record_concat, List.filterMap_append, yields]
  cases h : yielded? k op ((u.after ops).perform op).1 <;> simp [h]

theorem removed_concat (u : Use) (ops : List Op) (op : Op) :
    u.removed (ops ++ [op]) =
      u.removed ops ++ (removed? op ((u.after ops).perform op).1).toList := by
  rw [removed, record_concat, List.filterMap_append, removed]
  cases h : removed? op ((u.after ops).perform op).1 <;> simp [h]

end Use

theorem evicted_concat (ops : List Op) (op : Op) :
    evicted (ops ++ [op]) = evicted ops ++ evicted [op] := by
  rw [evicted, List.filterMap_append, evicted, evicted]

/-! ## The pool -/

theorem Use.pool_after (u : Use) (ops : List Op) :
    (u.after ops).pool = u.pool.evictAll (evicted ops) := by
  induction ops generalizing u with
  | nil => rfl
  | cons op ops ih =>
    have hstep : u.after (op :: ops) = (u.perform op).2.after ops := rfl
    rw [hstep, ih]
    cases op with
    | advance k =>
      rw [perform]
      split <;> rfl
    | _ => rfl

theorem size_evict {p : Pool} (h : p.size = p.entries.countP (·.2)) (id : Nat) :
    (p.evict id).size = (p.evict id).entries.countP (·.2) := by
  cases hid : p.contains id with
  | false => rw [evict_eq_self hid, h]
  | true =>
    obtain ⟨c, hget⟩ := contains_iff.mp hid
    have hone := length_live_evict hid
    rw [length_live, length_live] at hone
    have hsize : (p.evict id).size = p.size - 1 := by rw [evict_of_getElem? hget]
    omega

theorem size_evictAll {p : Pool} (h : p.size = p.entries.countP (·.2)) (ids : List Nat) :
    (p.evictAll ids).size = (p.evictAll ids).entries.countP (·.2) := by
  induction ids generalizing p with
  | nil => exact h
  | cons id ids ih => exact ih (size_evict h id)

/-- Taking out a live candidate takes one off a number that is in step with the flags. -/
theorem size_evict_add_one {p : Pool} (h : p.size = p.entries.countP (·.2)) {id : Nat}
    (hid : p.contains id = true) : (p.evict id).size + 1 = p.size := by
  rw [size_evict h, h, ← length_live, ← length_live, length_live_evict hid]

theorem size_ofList (cs : List Candidate) :
    (ofList cs).size = (ofList cs).entries.countP (·.2) := by
  rw [← length_live, length_live_ofList, ofList]

theorem entries_evictAll_ofList (cs : List Candidate) (ids : List Nat) :
    ((ofList cs).evictAll ids).entries = cs.zipIdx.map fun m => (m.1, !ids.contains m.2) := by
  apply List.ext_getElem?
  intro i
  rw [getElem?_entries_evictAll, ofList, List.getElem?_map, List.getElem?_map,
    List.getElem?_zipIdx, Option.map_map, Option.map_map]
  cases cs[i]? <;> simp

theorem contains_evictAll_ofList (cs : List Candidate) (ids : List Nat) (id : Nat) :
    ((ofList cs).evictAll ids).contains id = decide (id < cs.length ∧ id ∉ ids) := by
  rw [contains, entries_evictAll_ofList, List.getElem?_map, List.getElem?_zipIdx]
  by_cases hid : id < cs.length
  · simp [hid]
  · simp [hid]

theorem Use.size_after (cs : List Candidate) (ops : List Op) :
    ((Use.ofList cs).after ops).pool.size =
      ((Use.ofList cs).after ops).pool.entries.countP (·.2) := by
  rw [pool_after]
  exact size_evictAll (size_ofList cs) (evicted ops)

/-! ## Iterations -/

theorem exists_of_next?_eq_some {p : Pool} {position id : Nat} {c : Candidate}
    (h : p.next? position = some (id, c)) :
    position ≤ id ∧ p.entries[id]? = some (c, true) ∧
      ∀ j, position ≤ j → j < id → p.contains j = false := by
  obtain ⟨hle, before, after, hlive, hbefore⟩ := List.find?_eq_some_iff_append.mp h
  have hmem : (id, c) ∈ p.live := by
    rw [hlive]
    simp
  refine ⟨of_decide_eq_true hle, mem_live.mp hmem, fun j hj hlt => ?_⟩
  rw [← Bool.not_eq_true]
  intro hcontains
  obtain ⟨m, hm, rfl⟩ := List.mem_map.mp (mem_map_fst_live.mpr hcontains)
  have hsorted := pairwise_live p
  rw [hlive] at hm hsorted
  rcases List.mem_append.mp hm with hm | hm
  · have hpassed := hbefore m hm
    simp [hj] at hpassed
  · rcases List.mem_cons.mp hm with rfl | hm
    · exact absurd hlt (Nat.lt_irrefl _)
    · have hlater := List.rel_of_pairwise_cons (List.pairwise_append.mp hsorted).2.1 hm
      exact absurd hlt (Nat.lt_asymm hlater)

theorem contains_eq_false_of_next?_eq_none {p : Pool} {position : Nat}
    (h : p.next? position = none) {j : Nat} (hj : position ≤ j) : p.contains j = false := by
  rw [← Bool.not_eq_true]
  intro hcontains
  obtain ⟨m, hm, rfl⟩ := List.mem_map.mp (mem_map_fst_live.mpr hcontains)
  have hpassed := List.find?_eq_none.mp h m hm
  simp [hj] at hpassed

theorem lt_advanced_of_next?_eq_some {p : Pool} {position : Nat} {m : Nat × Candidate}
    (h : p.next? position = some m) : position ≤ m.1 ∧ m.1 < p.advanced position := by
  rw [advanced, h]
  exact ⟨(exists_of_next?_eq_some h).1, Nat.lt_succ_self _⟩

/-- Of the candidates that an iteration passes in one step it yields the one that is live. -/
theorem next?_eq_some_iff {p : Pool} {position i : Nat} (hle : position ≤ i)
    (hlt : i < p.advanced position) (c : Candidate) :
    p.next? position = some (i, c) ↔ p.entries[i]? = some (c, true) := by
  constructor
  · exact fun h => (exists_of_next?_eq_some h).2.1
  · intro hget
    have hlive : p.contains i = true := contains_iff.mpr ⟨c, hget⟩
    rw [advanced] at hlt
    cases hnext : p.next? position with
    | none => simp [contains_eq_false_of_next?_eq_none hnext hle] at hlive
    | some m =>
      obtain ⟨id, c'⟩ := m
      obtain ⟨-, hid, hskipped⟩ := exists_of_next?_eq_some hnext
      rw [hnext] at hlt
      have hi : i = id := by
        by_contra hne
        have hlt' : i < id := by
          simp only at hlt
          omega
        rw [hskipped i hle hlt'] at hlive
        exact Bool.false_ne_true hlive
      subst hi
      rw [hid] at hget
      rw [(Prod.mk.inj (Option.some.inj hget)).1]

theorem advanced_le (p : Pool) (position : Nat) : p.advanced position ≤ p.initialSize := by
  rw [advanced]
  split
  · next m hnext =>
    exact (List.getElem?_eq_some_iff.mp (exists_of_next?_eq_some hnext).2.1).1
  · exact Nat.le_refl _

theorem le_advanced {p : Pool} {position : Nat} (h : position ≤ p.initialSize) :
    position ≤ p.advanced position := by
  cases hnext : p.next? position with
  | none => rwa [advanced, hnext]
  | some m =>
    obtain ⟨hle, hlt⟩ := lt_advanced_of_next?_eq_some hnext
    exact Nat.le_trans hle (Nat.le_of_lt hlt)

namespace Use

/-- Whether the next step of an iteration passes a candidate. -/
def Passes (u : Use) (k i : Nat) : Prop :=
  ∃ position, u.positions[k]? = some position ∧ position ≤ i ∧ i < u.pool.advanced position

/-- One operation either is a step of an iteration or leaves the iteration where it is. -/
theorem perform_cases (u : Use) (op : Op) (k : Nat) :
    (∃ position, op = .advance k ∧ u.positions[k]? = some position ∧
      (u.perform op).2.position k = u.pool.advanced position ∧
      yielded? k op (u.perform op).1 = u.pool.next? position) ∨
    ((op = .advance k → u.positions[k]? = none) ∧
      (u.perform op).2.position k = u.position k ∧ yielded? k op (u.perform op).1 = none) := by
  cases op with
  | advance j =>
    cases hj : u.positions[j]? with
    | none =>
      right
      rw [perform, hj]
      refine ⟨?_, rfl, ?_⟩
      · rintro ⟨⟩
        exact hj
      · rw [yielded?]
        split <;> rfl
    | some position =>
      rw [perform, hj]
      by_cases hjk : j = k
      · subst hjk
        left
        have hlt : j < u.positions.length := (List.getElem?_eq_some_iff.mp hj).1
        refine ⟨position, rfl, hj, ?_, ?_⟩
        · simp [Use.position, List.getElem?_set_self hlt]
        · simp [yielded?]
      · right
        refine ⟨?_, ?_, ?_⟩
        · rintro ⟨⟩
          exact absurd rfl hjk
        · simp [Use.position, List.getElem?_set_ne hjk]
        · simp [yielded?, hjk]
  | iterate =>
    refine .inr ⟨Op.noConfusion, ?_, rfl⟩
    rw [perform, Use.position, Use.position]
    rcases Nat.lt_trichotomy k u.positions.length with hk | rfl | hk
    · rw [List.getElem?_append_left hk]
    · simp
    · have hlength : (u.positions ++ [0]).length ≤ k := by
        rw [List.length_append]
        exact hk
      rw [List.getElem?_eq_none hlength, List.getElem?_eq_none (Nat.le_of_lt hk)]
  | _ => exact .inr ⟨Op.noConfusion, rfl, rfl⟩

end Use

/-- After the operations `before`, among several, an iteration reaches a candidate. -/
def Reaches (cs : List Candidate) (ops : List Op) (k i : Nat) (before : List Op) : Prop :=
  before ++ [.advance k] <+: ops ∧ ((Use.ofList cs).after before).Passes k i

theorem reaches_concat (cs : List Candidate) (ops : List Op) (op : Op) (k i : Nat)
    (before : List Op) :
    Reaches cs (ops ++ [op]) k i before ↔
      (before = ops ∧ op = .advance k ∧ ((Use.ofList cs).after ops).Passes k i) ∨
        Reaches cs ops k i before := by
  rw [Reaches, Reaches, List.prefix_concat_iff, or_and_right, List.append_singleton_inj]
  constructor
  · rintro (⟨⟨rfl, rfl⟩, hpasses⟩ | hearlier)
    · exact .inl ⟨rfl, rfl, hpasses⟩
    · exact .inr hearlier
  · rintro (⟨rfl, rfl, hpasses⟩ | hearlier)
    · exact .inl ⟨⟨rfl, rfl⟩, hpasses⟩
    · exact .inr hearlier

/-- What an iteration has yielded in the course of operations: it reaches the candidates before its
position, each of them once, and yields those that are live when it reaches them. -/
structure Iterated (cs : List Candidate) (ops : List Op) (k position : Nat) : Prop where
  bounded : position ≤ cs.length
  ordered : ((Use.ofList cs).yields k ops).Pairwise (·.1 < ·.1)
  reached_once : ∀ i < position, ∃! before, Reaches cs ops k i before
  reached_only : ∀ i before, Reaches cs ops k i before → i < position
  yields_iff : ∀ i c, (i, c) ∈ (Use.ofList cs).yields k ops ↔
    ∃ before, Reaches cs ops k i before ∧ (i, c) ∈ ((Use.ofList cs).after before).pool.live
  finished : ∀ before position', before ++ [.advance k] <+: ops →
    ((Use.ofList cs).after before).positions[k]? = some position' →
    ((Use.ofList cs).after before).pool.next? position' = none → position = cs.length

theorem Use.initialSize_after (cs : List Candidate) (ops : List Op) :
    ((Use.ofList cs).after ops).pool.initialSize = cs.length := by
  rw [pool_after, initialSize, Use.ofList, entries_evictAll_ofList, List.length_map,
    List.length_zipIdx]

theorem Use.position_of_getElem? {u : Use} {k position : Nat} (h : u.positions[k]? = some position) :
    u.position k = position := by
  rw [Use.position, h, Option.getD_some]

/-- An operation that is no step of an iteration leaves what it has yielded. -/
theorem Iterated.keep {cs : List Candidate} {ops : List Op} {op : Op} {k position : Nat}
    (h : Iterated cs ops k position)
    (hop : op = .advance k → ((Use.ofList cs).after ops).positions[k]? = none)
    (hyielded : yielded? k op (((Use.ofList cs).after ops).perform op).1 = none) :
    Iterated cs (ops ++ [op]) k position := by
  have hreaches : ∀ i before, Reaches cs (ops ++ [op]) k i before ↔ Reaches cs ops k i before := by
    intro i before
    rw [reaches_concat, or_iff_right]
    rintro ⟨-, hadvance, position, hposition, -⟩
    rw [hop hadvance] at hposition
    cases hposition
  have hyields : (Use.ofList cs).yields k (ops ++ [op]) = (Use.ofList cs).yields k ops := by
    rw [Use.yields_concat, hyielded, Option.toList_none, List.append_nil]
  constructor
  case bounded =>
    exact h.bounded
  case ordered =>
    rw [hyields]
    exact h.ordered
  case reached_once =>
    simpa only [hreaches] using h.reached_once
  case reached_only =>
    simpa only [hreaches] using h.reached_only
  case yields_iff =>
    simpa only [hreaches, hyields] using h.yields_iff
  case finished =>
    intro before position' hpre hstarted
    rcases List.prefix_concat_iff.mp hpre with heq | hpre
    · obtain ⟨rfl, rfl⟩ := List.append_singleton_inj.mp heq
      rw [hop rfl] at hstarted
      cases hstarted
    · exact h.finished before position' hpre hstarted

/-- A step of an iteration passes what lies before the new position, and yields what is live. -/
theorem Iterated.step {cs : List Candidate} {ops : List Op} {k position : Nat}
    (h : Iterated cs ops k position)
    (hposition : ((Use.ofList cs).after ops).positions[k]? = some position)
    (hyielded : yielded? k (.advance k) (((Use.ofList cs).after ops).perform (.advance k)).1 =
      ((Use.ofList cs).after ops).pool.next? position) :
    Iterated cs (ops ++ [.advance k]) k (((Use.ofList cs).after ops).pool.advanced position) := by
  have hinitial := Use.initialSize_after cs ops
  have hyields := Use.yields_concat (Use.ofList cs) k ops (.advance k)
  rw [hyielded] at hyields
  generalize hu : (Use.ofList cs).after ops = u at hposition hinitial hyields ⊢
  have hle : position ≤ u.pool.advanced position := le_advanced (hinitial ▸ h.bounded)
  have hpasses : ∀ i, u.Passes k i ↔ position ≤ i ∧ i < u.pool.advanced position := by
    intro i
    simp only [Use.Passes, hposition, Option.some.injEq, exists_eq_left']
  have hreaches : ∀ i before, Reaches cs (ops ++ [.advance k]) k i before ↔
      (before = ops ∧ position ≤ i ∧ i < u.pool.advanced position) ∨ Reaches cs ops k i before := by
    intro i before
    rw [reaches_concat, hu, hpasses, eq_self, true_and]
  -- A candidate yielded so far lies before the old position.
  have hyielded_lt : ∀ m ∈ (Use.ofList cs).yields k ops, m.1 < position := by
    intro m hm
    obtain ⟨before, hbefore, -⟩ := (h.yields_iff m.1 m.2).mp hm
    exact h.reached_only _ _ hbefore
  constructor
  case bounded =>
    exact hinitial ▸ advanced_le u.pool position
  case ordered =>
    rw [hyields]
    refine List.pairwise_append.mpr ⟨h.ordered, ?_, ?_⟩
    · cases u.pool.next? position <;> simp
    · intro m hm m' hm'
      rw [Option.mem_toList] at hm'
      exact Nat.lt_of_lt_of_le (hyielded_lt m hm) (lt_advanced_of_next?_eq_some hm').1
  case reached_once =>
    intro i hi
    by_cases hold : i < position
    · obtain ⟨before, hbefore, honly⟩ := h.reached_once i hold
      refine ⟨before, (hreaches i before).mpr (.inr hbefore), fun other hother => ?_⟩
      rcases (hreaches i other).mp hother with ⟨-, hnew, -⟩ | hother
      · exact absurd hold (Nat.not_lt.mpr hnew)
      · exact honly other hother
    · have hnew := Nat.not_lt.mp hold
      refine ⟨ops, (hreaches i ops).mpr (.inl ⟨rfl, hnew, hi⟩), fun other hother => ?_⟩
      rcases (hreaches i other).mp hother with ⟨rfl, -⟩ | hother
      · rfl
      · exact absurd (h.reached_only i other hother) hold
  case reached_only =>
    intro i before hbefore
    rcases (hreaches i before).mp hbefore with ⟨-, -, hlt⟩ | hbefore
    · exact hlt
    · exact Nat.lt_of_lt_of_le (h.reached_only i before hbefore) hle
  case yields_iff =>
    intro i c
    rw [hyields, List.mem_append, h.yields_iff, Option.mem_toList]
    constructor
    · rintro (⟨before, hbefore, hlive⟩ | hnext)
      · exact ⟨before, (hreaches i before).mpr (.inr hbefore), hlive⟩
      · obtain ⟨hge, hlt⟩ := lt_advanced_of_next?_eq_some hnext
        refine ⟨ops, (hreaches i ops).mpr (.inl ⟨rfl, hge, hlt⟩), ?_⟩
        rw [hu, mem_live]
        exact (next?_eq_some_iff hge hlt c).mp hnext
    · rintro ⟨before, hbefore, hlive⟩
      rcases (hreaches i before).mp hbefore with ⟨rfl, hge, hlt⟩ | hbefore
      · rw [hu, mem_live] at hlive
        exact .inr ((next?_eq_some_iff hge hlt c).mpr hlive)
      · exact .inl ⟨before, hbefore, hlive⟩
  case finished =>
    intro before position' hpre hstarted hnone
    rcases List.prefix_concat_iff.mp hpre with heq | hpre
    · obtain ⟨rfl, -⟩ := List.append_singleton_inj.mp heq
      rw [hu] at hstarted hnone
      rw [hposition, Option.some.injEq] at hstarted
      subst hstarted
      rw [advanced, hnone, hinitial]
    · have hend := h.finished before position' hpre hstarted hnone
      exact Nat.le_antisymm (hinitial ▸ advanced_le u.pool position) (hend ▸ hle)

theorem iterated (cs : List Candidate) (ops : List Op) (k : Nat) :
    Iterated cs ops k (((Use.ofList cs).after ops).position k) := by
  induction ops using List.reverseRecOn with
  | nil =>
    have hnone : ∀ i before, ¬ Reaches cs [] k i before := by
      rintro i before ⟨hpre, -⟩
      simp at hpre
    exact ⟨Nat.zero_le _, .nil, fun i hi => absurd hi (Nat.not_lt_zero i),
      fun i before h => absurd h (hnone i before), by simp [Use.yields, Use.record, hnone], by simp⟩
  | append_singleton ops op ih =>
    rw [Use.after_concat]
    rcases ((Use.ofList cs).after ops).perform_cases op k with
      ⟨position, rfl, hposition, hadvanced, hyielded⟩ | ⟨hop, hstays, hyielded⟩
    · rw [hadvanced]
      rw [Use.position_of_getElem? hposition] at ih
      exact ih.step hposition hyielded
    · rw [hstays]
      exact ih.keep hop hyielded

/-- A candidate that is evicted while an iteration is under way is not yielded when the iteration
comes to it. -/
example (a b c : Candidate) :
    (Use.ofList [a, b, c]).yields 0 [.iterate, .advance 0, .evict 1, .advance 0, .advance 0] =
      [(0, a), (2, c)] := rfl

/-! ## Evictions that succeed -/

theorem Use.contains_after (cs : List Candidate) (ops : List Op) (id : Nat) :
    ((Use.ofList cs).after ops).pool.contains id = decide (id < cs.length ∧ id ∉ evicted ops) := by
  rw [pool_after, Use.ofList, contains_evictAll_ofList]

/-- One operation either takes out a known candidate that no eviction has named before, or changes
nothing in the pool. -/
theorem Use.removal_cases (cs : List Candidate) (ops : List Op) (op : Op) :
    (∃ id, op = .evict id ∧ id < cs.length ∧ id ∉ evicted ops ∧
      (Use.ofList cs).removed (ops ++ [op]) = (Use.ofList cs).removed ops ++ [id] ∧
      ((Use.ofList cs).after (ops ++ [op])).pool.size + 1 =
        ((Use.ofList cs).after ops).pool.size) ∨
    ((∀ id, id < cs.length ∧ id ∈ evicted [op] → id ∈ evicted ops) ∧
      (Use.ofList cs).removed (ops ++ [op]) = (Use.ofList cs).removed ops ∧
      ((Use.ofList cs).after (ops ++ [op])).pool = ((Use.ofList cs).after ops).pool) := by
  rw [removed_concat, after_concat]
  have hcontains := contains_after cs ops
  cases op with
  | evict id =>
    rw [perform]
    specialize hcontains id
    by_cases hid : id < cs.length ∧ id ∉ evicted ops
    · rw [decide_eq_true hid] at hcontains
      left
      rw [hcontains]
      exact ⟨id, rfl, hid.1, hid.2, rfl, size_evict_add_one (size_after cs ops) hcontains⟩
    · rw [decide_eq_false hid] at hcontains
      right
      rw [hcontains, evict_eq_self hcontains]
      refine ⟨?_, List.append_nil _, rfl⟩
      rintro i ⟨hlt, hi⟩
      rw [List.mem_singleton.mp hi] at hlt ⊢
      exact not_not.mp fun hfresh => hid ⟨hlt, hfresh⟩
  | advance k =>
    right
    rw [perform]
    split <;> exact ⟨fun i hi => absurd hi.2 List.not_mem_nil, List.append_nil _, rfl⟩
  | _ => exact .inr ⟨fun i hi => absurd hi.2 List.not_mem_nil, List.append_nil _, rfl⟩

/-- The evictions that succeed are the first ones of known candidates. -/
theorem Use.nodup_removed (cs : List Candidate) (ops : List Op) :
    ((Use.ofList cs).removed ops).Nodup ∧
      ∀ id, id ∈ (Use.ofList cs).removed ops ↔ id < cs.length ∧ id ∈ evicted ops := by
  induction ops using List.reverseRecOn with
  | nil => exact ⟨.nil, by simp [removed, record, evicted]⟩
  | append_singleton ops op ih =>
    obtain ⟨hnodup, hmem⟩ := ih
    rw [evicted_concat]
    rcases removal_cases cs ops op with ⟨id, rfl, hlt, hfresh, hremoved, -⟩ | ⟨hnamed, hremoved, -⟩
    · have hnew : id ∉ (Use.ofList cs).removed ops := fun h => hfresh ((hmem id).mp h).2
      rw [hremoved]
      refine ⟨List.concat_eq_append ▸ hnodup.concat hnew, fun i => ?_⟩
      rw [List.mem_append, List.mem_append, hmem, and_or_left, List.mem_singleton]
      refine or_congr_right ⟨?_, fun h => List.mem_singleton.mp h.2⟩
      rintro rfl
      exact ⟨hlt, List.mem_singleton.mpr rfl⟩
    · rw [hremoved]
      refine ⟨hnodup, fun i => ?_⟩
      rw [hmem, List.mem_append, and_or_left]
      exact ⟨.inl, fun h => h.elim id fun hi => ⟨hi.1, hnamed i hi⟩⟩

/-- Every eviction that succeeds takes one off the number of live candidates, and nothing else
does. -/
theorem Use.size_add_length_removed (cs : List Candidate) (ops : List Op) :
    ((Use.ofList cs).after ops).pool.size + ((Use.ofList cs).removed ops).length = cs.length := by
  induction ops using List.reverseRecOn with
  | nil => rfl
  | append_singleton ops op ih =>
    rcases removal_cases cs ops op with ⟨id, -, -, -, hremoved, hsize⟩ | ⟨-, hremoved, hpool⟩
    · rw [hremoved, List.length_append, List.length_singleton]
      omega
    · rw [hremoved, hpool, ih]

/-! ## The use of a pool -/

/-- **A pool in use.**  Whatever is done with a pool, in whatever order:

* a candidate is live until an eviction names it, and the number of live candidates is that of the
  flags that are set;
* an eviction of a live candidate succeeds and takes one off the number; any other eviction changes
  nothing;
* the evictions that succeed name every known candidate that is named at all, each of them once, and
  they make up the difference to the number at the start;
* the candidates and their number at the start stay what they are;
* the pool depends only on which known candidates the evictions have named;
* every iteration goes as `Iterated` says. -/
theorem after_ofList (cs : List Candidate) (ops : List Op) :
    let u := (Use.ofList cs).after ops
    let removed := (Use.ofList cs).removed ops
    (u.pool.entries = cs.zipIdx.map (fun m => (m.1, !(evicted ops).contains m.2)) ∧
      (∀ id, u.pool.contains id = true ↔ id < cs.length ∧ id ∉ evicted ops) ∧
      u.pool.size = u.pool.entries.countP (·.2)) ∧
    (∀ id,
      (u.pool.contains id = true →
        (u.perform (.evict id)).1 = .flag true ∧
          (u.perform (.evict id)).2.pool.size + 1 = u.pool.size) ∧
      (u.pool.contains id = false → u.perform (.evict id) = (.flag false, u))) ∧
    (removed.Nodup ∧ (∀ id, id ∈ removed ↔ id < cs.length ∧ id ∈ evicted ops) ∧
      u.pool.size + removed.length = cs.length) ∧
    (u.pool.initialSize = cs.length ∧ ∀ id, u.pool.get? id = cs[id]?) ∧
    (∀ others, (∀ id < cs.length, id ∈ evicted others ↔ id ∈ evicted ops) →
      ((Use.ofList cs).after others).pool = u.pool) ∧
    ∀ k, Iterated cs ops k (u.position k) := by
  intro u removed
  have hentries : u.pool.entries = cs.zipIdx.map fun m => (m.1, !(evicted ops).contains m.2) := by
    rw [Use.pool_after, Use.ofList, entries_evictAll_ofList]
  have hsize : u.pool.size = u.pool.entries.countP (·.2) := Use.size_after cs ops
  obtain ⟨hnodup, hmem⟩ := Use.nodup_removed cs ops
  refine ⟨⟨hentries, fun id => ?_, hsize⟩, fun id => ⟨fun hlive => ⟨?_, ?_⟩, fun hgone => ?_⟩,
    ⟨hnodup, hmem, Use.size_add_length_removed cs ops⟩, ⟨Use.initialSize_after cs ops, fun id => ?_⟩,
    fun others hothers => ?_, fun k => iterated cs ops k⟩
  · rw [Use.contains_after, decide_eq_true_iff]
  · rw [Use.perform, hlive]
  · exact size_evict_add_one hsize hlive
  · rw [Use.perform, hgone, evict_eq_self hgone]
  · rw [get?, hentries, List.getElem?_map, List.getElem?_zipIdx]
    cases cs[id]? <;> rfl
  · have heq : ((Use.ofList cs).after others).pool.entries = u.pool.entries := by
      rw [hentries, Use.pool_after, Use.ofList, entries_evictAll_ofList]
      refine List.map_congr_left fun m hm => ?_
      have hlt : m.2 < cs.length := List.snd_lt_of_mem_zipIdx hm
      rw [List.contains_eq_mem, List.contains_eq_mem, decide_eq_decide.mpr (hothers m.2 hlt)]
    have hsizes : ((Use.ofList cs).after others).pool.size = u.pool.size := by
      rw [hsize, ← heq, Use.size_after]
    exact (Pool.mk.injEq ..).mpr ⟨heq, hsizes⟩

end LintSetup.Pool
