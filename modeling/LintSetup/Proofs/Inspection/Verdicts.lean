import LintSetup.Proofs.Candidate.Eviction
import LintSetup.Proofs.Inspection.Trial

/-!
# The calls that an inspection of a text makes

An inspection of a text walks along the live candidates while the candidates that it disproves are
only written down, the linter may fail at any of them, and a fatal answer throws away what was
written down.  The overlay that the linter is shown is one configuration that is changed from
candidate to candidate.  What all this comes to is told by the candidates that were tried, each with
the answer to it.

* `Tried` --- a candidate with its answer, and `Tried.IsCallIn`, the exchange that it stands for.
* `Tries` --- which candidates are tried: one after another, up to the first fatal answer.
* `exists_tries_tryAll` --- the invariant of the trials, by induction on the candidates: the calls,
  and what is written down, are read off a list of tried candidates.
* `Tells` --- what such a list says about the inspection of a text, the pool after it included.

For every linter, there is a list that tells of the inspection (`exists_tells_inspectText`).
-/

namespace LintSetup.Inspection

variable {σ : Type}

/-! ## Candidates that were tried -/

/-- A live candidate that was tried, and the answer of the linter. -/
structure Tried where
  entry : Nat × Candidate
  answer : Except Failure Verification

namespace Tried

/-- The identifier of the candidate. -/
def id (m : Tried) : Nat := m.entry.1

/-- The candidate. -/
def candidate (m : Tried) : Candidate := m.entry.2

/-- The linter did not fail. -/
def succeeded (m : Tried) : Bool :=
  match m.answer with
  | .ok _ => true
  | .error _ => false

/-- The linter did not fail, and its first violation is fatal. -/
def isFatal (m : Tried) : Bool :=
  match m.answer with
  | .ok v => v.isFatal
  | .error _ => false

/-- The linter did not fail, and has a violation of the rule of the candidate. -/
def reports (m : Tried) : Bool :=
  match m.answer with
  | .ok v => v.violations.any (·.ruleId == some m.candidate.ruleId)
  | .error _ => false

theorem map_id_eq (ms : List Tried) : ms.map Tried.id = (ms.map Tried.entry).map (·.1) := by
  rw [List.map_map]
  rfl

theorem succeeded_of_reports (m : Tried) (h : m.reports = true) : m.succeeded = true := by
  obtain ⟨entry, answer⟩ := m
  cases answer with
  | ok v => rfl
  | error f => exact absurd h Bool.false_ne_true

/-- An exchange is the call that tries a candidate: the linter is asked about a text, under a
configuration with the rules of this candidate in place of its own. -/
def IsCallIn (base : Config) (text path : String) (m : Tried) (e : Exchange Linter) : Prop :=
  ∃ kept, e = ⟨.verify text kept (base.withRules m.candidate.rules) path, m.answer⟩

end Tried

/-- The candidates that are tried of a list: all of them, or those up to the first fatal answer. -/
inductive Tries : List (Nat × Candidate) → List Tried → Prop
  | done : Tries [] []
  | stop (m : Tried) (rest : List (Nat × Candidate)) (fatal : m.isFatal = true) :
      Tries (m.entry :: rest) [m]
  | next (m : Tried) {rest : List (Nat × Candidate)} {ms : List Tried} (sound : m.isFatal = false)
      (tries : Tries rest ms) : Tries (m.entry :: rest) (m :: ms)

namespace Tries

variable {cs : List (Nat × Candidate)} {ms : List Tried}

/-- The candidates are tried in their order, and none is skipped. -/
theorem isPrefix (h : Tries cs ms) : ms.map Tried.entry <+: cs := by
  induction h with
  | done => exact List.prefix_rfl
  | stop m rest fatal => exact ⟨rest, rfl⟩
  | next m sound tries ih => exact List.cons_prefix_cons.mpr ⟨rfl, ih⟩

/-- After a fatal answer no candidate is tried. -/
theorem pairwise (h : Tries cs ms) : ms.Pairwise fun m _ => m.isFatal = false := by
  induction h with
  | done => exact List.Pairwise.nil
  | stop m rest fatal => exact List.pairwise_singleton _ _
  | next m sound tries ih => exact List.pairwise_cons.mpr ⟨fun _ _ => sound, ih⟩

/-- Without a fatal answer all candidates are tried. -/
theorem map_entry_eq (h : Tries cs ms) (sound : ∀ m ∈ ms, m.isFatal = false) :
    ms.map Tried.entry = cs := by
  induction h with
  | done => rfl
  | stop m rest fatal =>
    rw [sound _ List.mem_cons_self] at fatal
    exact absurd fatal Bool.false_ne_true
  | next m _ tries ih =>
    rw [List.map_cons, ih fun m hm => sound m (List.mem_cons_of_mem _ hm)]

end Tries

/-! ## The calls in a transcript -/

/-- An exchange in which the linter is asked about a text. -/
def isCall : Exchange Linter → Bool
  | ⟨.verify .., _⟩ => true
  | _ => false

/-- The exchanges of a transcript in which the linter is asked about a text. -/
def calls (exchanges : List (Exchange Linter)) : List (Exchange Linter) := exchanges.filter isCall

@[simp] theorem calls_append (es fs : List (Exchange Linter)) :
    calls (es ++ fs) = calls es ++ calls fs :=
  List.filter_append ..

@[simp] theorem calls_verify (text path : String) (kept : Option Handle) (config : Config)
    (a : Except Failure Verification) (es : List (Exchange Linter)) :
    calls (⟨.verify text kept config path, a⟩ :: es) =
      ⟨.verify text kept config path, a⟩ :: calls es := rfl

/-- Keeping a handle is no call. -/
@[simp] theorem calls_keepHandle (h : Handler Linter σ) (kept back : Option Handle) (s : σ) :
    calls ((keepHandle kept back).transcript h s) = [] := by
  rcases kept with _ | k
  · rfl
  · rcases back with _ | b <;> rfl

/-- Giving the kept handle back is no call. -/
@[simp] theorem calls_releaseKept (h : Handler Linter σ) (kept : Option Handle) (s : σ) :
    calls ((releaseKept kept).transcript h s) = [] := by
  rcases kept with _ | k <;> rfl

/-! ## The invariant of the trials -/

/-- What trials have written down once the given candidates were tried as well. -/
structure Trials.Records (t t' : Trials) (ms : List Tried) : Prop where
  checked : t'.checked = t.checked + ms.countP Tried.succeeded
  fatal : t'.fatal = (t.fatal || ms.any Tried.isFatal)
  disproven :
    t'.disproven = t.disproven ++ (ms.filter fun m => m.reports && !m.isFatal).map Tried.id

namespace Trials.Records

variable {t t' : Trials} {ms : List Tried}

theorem nil (t : Trials) : t.Records t [] where
  checked := rfl
  fatal := (Bool.or_false _).symm
  disproven := (List.append_nil _).symm

/-- A failure writes nothing down. -/
theorem error (h : t.Records t' ms) (m : Nat × Candidate) (f : Failure) :
    t.Records t' (⟨m, .error f⟩ :: ms) where
  checked := h.checked
  fatal := h.fatal
  disproven := h.disproven

/-- A fatal answer is counted, and nothing is disproven by it. -/
theorem stop (t : Trials) (m : Nat × Candidate) {v : Verification} (fatal : v.isFatal = true) :
    t.Records t.stop [⟨m, .ok v⟩] where
  checked := rfl
  fatal := by simp [Trials.stop, Tried.isFatal, fatal]
  disproven := by simp [Trials.stop, Tried.isFatal, fatal]

/-- Any other answer is counted, and disproves the candidate when it reports its rule. -/
theorem note {m : Nat × Candidate} {v : Verification} (h : (t.note m v).Records t' ms)
    (sound : v.isFatal = false) : t.Records t' (⟨m, .ok v⟩ :: ms) where
  checked := by
    rw [h.checked, List.countP_cons_of_pos rfl]
    simp only [Trials.note]
    omega
  fatal := by
    have hm : Tried.isFatal ⟨m, .ok v⟩ = false := sound
    rw [h.fatal, List.any_cons, hm, Bool.false_or]
    rfl
  disproven := by
    have hm : (Tried.reports ⟨m, .ok v⟩ && !Tried.isFatal ⟨m, .ok v⟩) = true ↔
        0 < v.count m.2.ruleId := by
      have hfatal : Tried.isFatal ⟨m, .ok v⟩ = false := sound
      rw [hfatal, Bool.not_false, Bool.and_true, Verification.count_pos_iff]
      rfl
    rw [h.disproven, Trials.note, List.filter_cons]
    simp only [hm]
    split
    · rw [List.map_cons, List.append_assoc, List.singleton_append]
      rfl
    · rfl

end Trials.Records

/-- **The invariant of the trials.**  The calls of some trials, and what they have written down at
their end, are those of a list of tried candidates. -/
theorem exists_tries_tryAll (h : Handler Linter σ) (base : Config) (text path : String)
    (cs : List (Nat × Candidate)) (t : Trials) (s : σ) :
    ∃ ms, Tries cs ms ∧
      List.Forall₂ (Tried.IsCallIn base text path) ms
        (calls ((tryAll base text path cs t).transcript h s)) ∧
      t.Records ((tryAll base text path cs t).run h s).1 ms := by
  refine tryAll_induction h base text path (P := fun cs t es t' =>
    ∃ ms, Tries cs ms ∧ List.Forall₂ (Tried.IsCallIn base text path) ms (calls es) ∧
      t.Records t' ms) ?_ ?_ ?_ ?_ cs t s
  · exact fun t => ⟨[], .done, .nil, .nil t⟩
  · rintro m rest t f es t' ⟨ms, htries, hcalls, hrecords⟩
    rw [calls_verify]
    exact ⟨⟨m, .error f⟩ :: ms, .next ⟨m, .error f⟩ rfl htries, .cons ⟨t.handle, rfl⟩ hcalls,
      hrecords.error m f⟩
  · intro m rest t v fatal
    rw [calls_verify]
    exact ⟨[⟨m, .ok v⟩], .stop ⟨m, .ok v⟩ rest fatal, .cons ⟨t.handle, rfl⟩ .nil, .stop t m fatal⟩
  · rintro m rest t v s es t' sound ⟨ms, htries, hcalls, hrecords⟩
    rw [calls_verify, calls_append, calls_keepHandle, List.nil_append]
    exact ⟨⟨m, .ok v⟩ :: ms, .next ⟨m, .ok v⟩ sound htries, .cons ⟨t.handle, rfl⟩ hcalls,
      hrecords.note sound⟩

/-! ## A text -/

/-- The report on a text and the pool after it are what follows from the candidates that were
tried. -/
structure Concludes (pool : Pool) (report : FileReport) (left : Pool) (ms : List Tried) : Prop where
  checked : report.checked = ms.countP Tried.succeeded
  fatal : report.fatal = ms.any Tried.isFatal
  /-- After a fatal answer the pool is as it was. -/
  unchanged : report.fatal = true → report.evicted = 0 ∧ left = pool
  /-- Without one, the candidates whose rule was reported are gone, and no other. -/
  evicted : report.fatal = false → report.evicted = ms.countP Tried.reports
  contains : report.fatal = false → ∀ id, left.contains id = true ↔
    pool.contains id = true ∧ ∀ m ∈ ms, m.id = id → m.reports = false
  size : left.size = pool.size - report.evicted
  candidates : left.candidates = pool.candidates

/-- The candidates that were tried tell what an inspection of a text has come to. -/
structure Tells (base : Config) (text path : String) (pool : Pool)
    (exchanges : List (Exchange Linter)) (report : FileReport) (left : Pool) (ms : List Tried) :
    Prop where
  /-- One call is made for each candidate that was tried, in order, and no other. -/
  calls : List.Forall₂ (Tried.IsCallIn base text path) ms (calls exchanges)
  /-- The live candidates are tried in their order, and none of them is skipped. -/
  inOrder : ms.map Tried.entry <+: pool.live
  /-- After a fatal answer no candidate is tried. -/
  stopped : ms.Pairwise fun m _ => m.isFatal = false
  /-- Without a fatal answer all of them are tried. -/
  complete : (∀ m ∈ ms, m.isFatal = false) → ms.map Tried.entry = pool.live
  path_eq : report.path = path
  concludes : Concludes pool report left ms

/-- Candidates that are tried in the order of a pool are live, and each of them is tried once. -/
theorem live_of_isPrefix {pool : Pool} {ms : List Tried} (h : ms.map Tried.entry <+: pool.live) :
    (ms.map Tried.id).Nodup ∧ ∀ m ∈ ms, pool.contains m.id = true := by
  constructor
  · rw [Tried.map_id_eq, List.Nodup, List.pairwise_map]
    exact (pool.pairwise_live.sublist h.sublist).imp fun hlt => Nat.ne_of_lt hlt
  · intro m hm
    refine Pool.mem_map_fst_live.mp (List.mem_map.mpr ⟨m.entry, h.subset ?_, rfl⟩)
    exact List.mem_map.mpr ⟨m, hm, rfl⟩

section Conclude

variable {pool : Pool} {t : Trials} {ms : List Tried}

/-- With a fatal answer, what was written down about candidates is thrown away. -/
theorem concludes_of_fatal (path : String) (h : Trials.Records {} t ms) (fatal : t.fatal = true) :
    Concludes pool (conclude path pool t).1 (conclude path pool t).2 ms := by
  rw [conclude, if_pos fatal]
  exact
    { checked := h.checked.trans (Nat.zero_add _)
      fatal := fatal.symm.trans (h.fatal.trans (Bool.false_or _))
      unchanged := fun _ => ⟨rfl, rfl⟩
      evicted := fun hsound => absurd hsound.symm Bool.false_ne_true
      contains := fun hsound => absurd hsound.symm Bool.false_ne_true
      size := rfl
      candidates := rfl }

/-- Without one, the candidates that were written down are those whose rule was reported. -/
theorem Trials.Records.disproven_eq (h : Trials.Records {} t ms) (sound : t.fatal = false) :
    t.disproven = (ms.filter Tried.reports).map Tried.id := by
  have hsound : ∀ m ∈ ms, m.isFatal = false := by
    rw [h.fatal, Bool.false_or, List.any_eq_false] at sound
    exact fun m hm => Bool.eq_false_iff.mpr (sound m hm)
  rw [h.disproven, List.nil_append]
  refine congrArg (List.map _) (List.filter_congr fun m hm => ?_)
  rw [hsound m hm, Bool.not_false, Bool.and_true]

/-- And these leave the pool. -/
theorem concludes_of_sound (path : String) (h : Trials.Records {} t ms) (sound : t.fatal = false)
    (inOrder : ms.map Tried.entry <+: pool.live) :
    Concludes pool (conclude path pool t).1 (conclude path pool t).2 ms := by
  have hdisproven := h.disproven_eq sound
  obtain ⟨hids, hlive⟩ := live_of_isPrefix inOrder
  have hnodup : t.disproven.Nodup :=
    hdisproven ▸ hids.sublist (List.filter_sublist.map _)
  have hcontains : ∀ id ∈ t.disproven, pool.contains id = true := by
    rw [hdisproven]
    intro id hid
    obtain ⟨m, hm, rfl⟩ := List.mem_map.mp hid
    exact hlive m (List.mem_filter.mp hm).1
  have hnumber : t.disproven.length = ms.countP Tried.reports := by
    rw [hdisproven, List.length_map, List.countP_eq_length_filter]
  have hnamed : ∀ id, id ∈ t.disproven ↔ ∃ m ∈ ms, m.id = id ∧ m.reports = true := by
    intro id
    rw [hdisproven, List.mem_map]
    constructor
    · rintro ⟨m, hm, hid⟩
      obtain ⟨hmem, hreports⟩ := List.mem_filter.mp hm
      exact ⟨m, hmem, hid, hreports⟩
    · rintro ⟨m, hmem, hid, hreports⟩
      exact ⟨m, List.mem_filter.mpr ⟨hmem, hreports⟩, hid⟩
  rw [conclude, sound, if_neg Bool.false_ne_true, List.filter_eq_self.mpr hcontains]
  exact
    { checked := h.checked.trans (Nat.zero_add _)
      fatal := sound.symm.trans (h.fatal.trans (Bool.false_or _))
      unchanged := fun hfatal => absurd hfatal Bool.false_ne_true
      evicted := fun _ => hnumber
      contains := by
        intro _ id
        show (pool.evictAll t.disproven).contains id = true ↔ _
        rw [Pool.contains_evictAll, Bool.and_eq_true, Bool.not_eq_true', ← Bool.not_eq_true,
          List.contains_iff_mem, hnamed]
        simp only [not_exists, not_and, Bool.not_eq_true]
      size := Pool.size_evictAll_live hnodup hcontains
      candidates := Pool.candidates_evictAll pool t.disproven }

end Conclude

/-- **What an inspection of a text does.**  For every linter, every configuration and text, and every
pool, one call is made for each live candidate in the order of the pool, up to the first fatal answer.
Each call shows the configuration with the rules of its candidate.  The answers that did not fail are
counted.  If one is fatal, the pool stays as it is; otherwise those candidates leave it for whose rule
there was a violation in the answer to them, and no other. -/
theorem exists_tells_inspectText (h : Handler Linter σ) (s : σ) (base : Config)
    (text path : String) (pool : Pool) :
    let run := ((inspectText base text path pool).run h s).1
    ∃ ms, Tells base text path pool ((inspectText base text path pool).transcript h s) run.1 run.2
      ms := by
  obtain ⟨ms, htries, hcalls, hrecords⟩ := exists_tries_tryAll h base text path pool.live {} s
  rw [run_inspectText, transcript_inspectText]
  generalize (tryAll base text path pool.live {}).run h s = last at hrecords ⊢
  refine ⟨ms, ?_, htries.isPrefix, htries.pairwise, htries.map_entry_eq, ?_, ?_⟩
  · rwa [calls_append, calls_releaseKept, List.append_nil]
  · rw [conclude]
    split <;> rfl
  · cases hfatal : last.1.fatal with
    | true => exact concludes_of_fatal path hrecords hfatal
    | false => exact concludes_of_sound path hrecords hfatal htries.isPrefix

end LintSetup.Inspection
