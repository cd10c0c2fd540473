import LintSetup.Inspection.Source
import Mathlib.Data.List.Basic

/-!
# One trial of a text

The trials of a text go on candidate by candidate, and what is proved about them is proved by
induction on the candidates.  What one candidate contributes is said here once.  It asks for one
verification (`trial`), and then one of three things happens.

* A verification that fails leaves the trials as they are.
* A fatal one ends them (`Trials.stop`).
* Any other is noted (`Trials.note`), after the handle that it came with has been kept or given
  back.

Each of the three is an equation for the run and one for the transcript.  Where a statement is about
both, `tryAll_induction` has one case for each of the three.

The overlay that the trials share shows in none of them.  Whatever rules it holds, the next candidate
puts its own in their place, where they stand (`tryAll_withRules`); so every candidate is tried with
the configuration that the trials began with.
-/

namespace LintSetup.Inspection

variable {σ : Type}

/-- The trials after a fatal verification. -/
def Trials.stop (t : Trials) : Trials := { t with checked := t.checked + 1, fatal := true }

/-- The trials after a verification of a candidate that is not fatal. -/
def Trials.note (t : Trials) (m : Nat × Candidate) (v : Verification) : Trials :=
  { checked := t.checked + 1
    fatal := t.fatal
    handle := t.handle.or v.handle
    disproven := if 0 < v.count m.2.ruleId then t.disproven ++ [m.1] else t.disproven }

/-- A rule is reported when it has at least one violation. -/
theorem Verification.count_pos_iff (v : Verification) (ruleId : String) :
    0 < v.count ruleId ↔ v.violations.any (·.ruleId == some ruleId) = true := by
  rw [count, List.countP_pos_iff, List.any_eq_true]

/-- The linter's answer when a candidate is tried, and its state after it. -/
def trial (h : Handler Linter σ) (base : Config) (text path : String) (t : Trials)
    (m : Nat × Candidate) (s : σ) : Except Failure Verification × σ :=
  h (.verify text t.handle (base.withRules m.2.rules) path) s

/-- The first handle is kept, whatever comes after it. -/
theorem run_keepHandle (h : Handler Linter σ) (kept back : Option Handle) (s : σ) :
    ((keepHandle kept back).run h s).1 = kept.or back := by
  rcases kept with _ | k
  · rfl
  · rcases back with _ | b <;> rfl

/-- The rules that an overlay holds before the trials do not show in them. -/
theorem tryAll_withRules (base : Config) (rules : Members Json) (text path : String)
    (cs : List (Nat × Candidate)) (t : Trials) :
    tryAll (base.withRules rules) text path cs t = tryAll base text path cs t := by
  cases cs with
  | nil => rfl
  | cons m rest =>
    obtain ⟨id, c⟩ := m
    rw [tryAll, tryAll, Config.withRules_withRules]

variable (h : Handler Linter σ) (base : Config) (text path : String) {m : Nat × Candidate}
  (rest : List (Nat × Candidate)) {t : Trials} {s : σ}

/-! ## Runs -/

theorem run_tryAll_of_error {f : Failure}
    (answer : (trial h base text path t m s).1 = Except.error f) :
    (tryAll base text path (m :: rest) t).run h s =
      (tryAll base text path rest t).run h (trial h base text path t m s).2 := by
  rw [trial] at answer
  rw [tryAll, run_ask, answer, trial]
  simp only [tryAll_withRules]

theorem run_tryAll_of_fatal {v : Verification}
    (answer : (trial h base text path t m s).1 = Except.ok v) (fatal : v.isFatal = true) :
    (tryAll base text path (m :: rest) t).run h s =
      (t.stop, (trial h base text path t m s).2) := by
  rw [trial] at answer
  rw [tryAll, run_ask, answer]
  simp only [fatal, if_true]
  rfl

theorem run_tryAll_of_ok {v : Verification}
    (answer : (trial h base text path t m s).1 = Except.ok v) (sound : v.isFatal = false) :
    (tryAll base text path (m :: rest) t).run h s =
      (tryAll base text path rest (t.note m v)).run h
        ((keepHandle t.handle v.handle).run h (trial h base text path t m s).2).2 := by
  rw [trial] at answer
  rw [tryAll, run_ask, answer]
  simp only [sound, Bool.false_eq_true, if_false, Dialogue.run_bind, run_keepHandle,
    tryAll_withRules]
  rfl

/-! ## Transcripts -/

theorem transcript_tryAll_of_error {f : Failure}
    (answer : (trial h base text path t m s).1 = Except.error f) :
    (tryAll base text path (m :: rest) t).transcript h s =
      ⟨.verify text t.handle (base.withRules m.2.rules) path, .error f⟩ ::
        (tryAll base text path rest t).transcript h (trial h base text path t m s).2 := by
  rw [trial] at answer
  rw [tryAll, transcript_ask, answer, trial]
  simp only [tryAll_withRules]

theorem transcript_tryAll_of_fatal {v : Verification}
    (answer : (trial h base text path t m s).1 = Except.ok v) (fatal : v.isFatal = true) :
    (tryAll base text path (m :: rest) t).transcript h s =
      [⟨.verify text t.handle (base.withRules m.2.rules) path, .ok v⟩] := by
  rw [trial] at answer
  rw [tryAll, transcript_ask, answer]
  simp only [fatal, if_true]
  rfl

theorem transcript_tryAll_of_ok {v : Verification}
    (answer : (trial h base text path t m s).1 = Except.ok v) (sound : v.isFatal = false) :
    (tryAll base text path (m :: rest) t).transcript h s =
      ⟨.verify text t.handle (base.withRules m.2.rules) path, .ok v⟩ ::
        ((keepHandle t.handle v.handle).transcript h (trial h base text path t m s).2 ++
          (tryAll base text path rest (t.note m v)).transcript h
            ((keepHandle t.handle v.handle).run h (trial h base text path t m s).2).2) := by
  rw [trial] at answer
  rw [tryAll, transcript_ask, answer]
  simp only [sound, Bool.false_eq_true, if_false, Dialogue.transcript_bind, run_keepHandle,
    tryAll_withRules]
  rfl

/-- **Induction along trials.**  What holds where there is nothing to try and after a fatal
verification, and is kept by a failure and by a verification that is noted, holds of the exchanges of
all trials and of what they lead to. -/
theorem tryAll_induction
    {P : List (Nat × Candidate) → Trials → List (Exchange Linter) → Trials → Prop}
    (done : ∀ t, P [] t [] t)
    (error : ∀ m rest t (f : Failure) es t', P rest t es t' →
      P (m :: rest) t (⟨.verify text t.handle (base.withRules m.2.rules) path, .error f⟩ :: es) t')
    (fatal : ∀ m rest t (v : Verification), v.isFatal = true →
      P (m :: rest) t [⟨.verify text t.handle (base.withRules m.2.rules) path, .ok v⟩] t.stop)
    (note : ∀ m rest t (v : Verification) s es t', v.isFatal = false → P rest (t.note m v) es t' →
      P (m :: rest) t (⟨.verify text t.handle (base.withRules m.2.rules) path, .ok v⟩ ::
        ((keepHandle t.handle v.handle).transcript h s ++ es)) t')
    (cs : List (Nat × Candidate)) (t : Trials) (s : σ) :
    P cs t ((tryAll base text path cs t).transcript h s)
      ((tryAll base text path cs t).run h s).1 := by
  induction cs generalizing t s with
  | nil => exact done t
  | cons m rest ih =>
    cases answer : (trial h base text path t m s).1 with
    | error f =>
      rw [transcript_tryAll_of_error h base text path rest answer,
        run_tryAll_of_error h base text path rest answer]
      exact error m rest t f _ _ (ih t _)
    | ok v =>
      cases hfatal : v.isFatal with
      | true =>
        rw [transcript_tryAll_of_fatal h base text path rest answer hfatal,
          run_tryAll_of_fatal h base text path rest answer hfatal]
        exact fatal m rest t v hfatal
      | false =>
        rw [transcript_tryAll_of_ok h base text path rest answer hfatal,
          run_tryAll_of_ok h base text path rest answer hfatal]
        exact note m rest t v _ _ _ hfatal (ih (t.note m v) _)

/-! ## A text -/

/-- The report on a text and the pool after it are what its trials lead to. -/
theorem run_inspectText (pool : Pool) (s : σ) :
    ((inspectText base text path pool).run h s).1 =
      conclude path pool ((tryAll base text path pool.live {}).run h s).1 := by
  rw [inspectText, Dialogue.run_bind, Dialogue.run_bind]
  rfl

/-- After the trials of a text, the kept handle is given back and nothing else is asked. -/
theorem transcript_inspectText (pool : Pool) (s : σ) :
    (inspectText base text path pool).transcript h s =
      (tryAll base text path pool.live {}).transcript h s ++
        (releaseKept ((tryAll base text path pool.live {}).run h s).1.handle).transcript h
          ((tryAll base text path pool.live {}).run h s).2 := by
  rw [inspectText, Dialogue.transcript_bind, Dialogue.transcript_bind, Dialogue.pure_eq,
    Dialogue.transcript_done, List.append_nil]

end LintSetup.Inspection
