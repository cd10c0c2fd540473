import LintSetup.Inspection.Schedule
import LintSetup.Proofs.Inspection.Trial

/-!
# Runs of several files, one look at a time

A run of several files fills the floor and looks at the head of the queue, over and over.  Here one
look is a definition of its own (`Floor.look`), the run is the iteration of looks
(`runAll_of_nil`, `runAll_of_cons`), and the induction along a run is done once
(`runAll_invariant`): whatever filling and looking preserve holds when the run has ended.  The
statement carries the transcript along, so that it may be about what was asked as well as about the
floor.

When a run has ended no file is in flight, and none is to come, as long as there was room for one
(`Floor.IsDone`).
-/

namespace LintSetup.Inspection

variable {σ : Type}

/-- The path of a file in flight. -/
def Task.path : Task → String
  | .fresh path => path
  | .reading path _ _ => path

/-- What the reading of a file in flight comes to, for a linter in the state in which the file is
looked at. -/
def Task.outcome (h : Handler Linter σ) (s : σ) : Task → Except IoError String
  | .fresh path => ((h (.read path) s).1 : Reading).outcome
  | .reading _ _ outcome => outcome

namespace Floor

/-- The floor with another queue. -/
def withQueue (f : Floor) (queue : List Task) : Floor := { f with queue }

/-- The floor after a file that is not in the queue has been finished. -/
def finish (f : Floor) (result : Except ReadFailure FileReport × Pool) : Floor :=
  { f with pool := result.2, outcomes := f.outcomes ++ [result.1] }

/-- Goes on with a file whose reading has started and that is not in the queue. -/
def proceed (base : Config) (f : Floor) (path : String) :
    Nat → Except IoError String → Session Floor
  | 0, outcome => do
    let result ← finishFile base path outcome f.pool
    return f.finish result
  | pending + 1, outcome => pure (f.withQueue (f.queue ++ [.reading path pending outcome]))

/-- One look at a file that has been taken from the queue. -/
def look (base : Config) (f : Floor) : Task → Session Floor
  | .fresh path => do
    let reading ← ask (.read path)
    f.proceed base path (reading : Reading).pending (reading : Reading).outcome
  | .reading path pending outcome => f.proceed base path pending outcome

/-- No file is in flight, and none is to come. -/
def IsDone (f : Floor) : Prop := f.queue = [] ∧ f.waiting = []

/-- Where there is room and nobody joins, nobody was to come. -/
theorem isDone_fill {limit : Nat} (hl : 0 < limit) {f : Floor} (hq : (f.fill limit).queue = []) :
    (f.fill limit).IsDone := by
  refine ⟨hq, ?_⟩
  obtain ⟨hnone, hjoin⟩ := List.append_eq_nil_iff.mp hq
  have hwait : f.waiting = [] := by
    rcases List.take_eq_nil_iff.mp (List.map_eq_nil_iff.mp hjoin) with hroom | hwait
    · rw [hnone, List.length_nil] at hroom
      omega
    · exact hwait
  simp [fill, hwait]

end Floor

/-! ## A run is an iteration of looks -/

theorem runAll_of_nil {limit : Nat} (base : Config) {f : Floor}
    (h : (f.fill limit).queue = []) : runAll limit base f = pure (f.fill limit) := by
  rw [runAll]
  split
  · rfl
  all_goals
    next hq => exact absurd (h.symm.trans hq) (List.cons_ne_nil _ _).symm

theorem runAll_of_cons {limit : Nat} (base : Config) {f : Floor} {t : Task} {queue : List Task}
    (h : (f.fill limit).queue = t :: queue) :
    runAll limit base f =
      ((f.fill limit).withQueue queue).look base t >>= runAll limit base := by
  rw [runAll]
  split
  · next hq => exact absurd (h.symm.trans hq) (List.cons_ne_nil _ _)
  · next path queue' hq =>
    obtain ⟨rfl, rfl⟩ := List.cons.inj (h.symm.trans hq)
    rw [Floor.look, bind_assoc]
    refine bind_congr fun reading => ?_
    obtain ⟨_ | pending, outcome⟩ := (reading : Reading)
    · simp only [Floor.proceed, bind_assoc, pure_bind]
      rfl
    · rfl
  · next path outcome queue' hq =>
    obtain ⟨rfl, rfl⟩ := List.cons.inj (h.symm.trans hq)
    simp only [Floor.look, Floor.proceed, bind_assoc, pure_bind]
    rfl
  · next path pending outcome queue' hq =>
    obtain ⟨rfl, rfl⟩ := List.cons.inj (h.symm.trans hq)
    rfl

/-! ## What a look leads to -/

/-- A file whose reading has ended leaves its outcome and its pool. -/
theorem run_proceed_zero (h : Handler Linter σ) (base : Config) (f : Floor) (path : String)
    (outcome : Except IoError String) (s : σ) :
    ((f.proceed base path 0 outcome).run h s).1 =
      f.finish ((finishFile base path outcome f.pool).run h s).1 := by
  rw [Floor.proceed, Dialogue.run_bind]
  rfl

/-- A look at a file either finishes it or puts it back with what its reading comes to. -/
theorem run_look (h : Handler Linter σ) (base : Config) (f : Floor) (t : Task) (s : σ) :
    (∃ s', ((f.look base t).run h s).1 =
      f.finish ((finishFile base t.path (t.outcome h s) f.pool).run h s').1) ∨
    (∃ pending, ((f.look base t).run h s).1 =
      f.withQueue (f.queue ++ [.reading t.path pending (t.outcome h s)])) := by
  rcases t with path | ⟨path, _ | pending, outcome⟩
  · rw [Floor.look, run_ask, Task.outcome]
    rcases ((h (.read path) s).1 : Reading) with ⟨_ | pending, outcome⟩
    · exact Or.inl ⟨_, run_proceed_zero h base f path outcome _⟩
    · exact Or.inr ⟨pending, rfl⟩
  · exact Or.inl ⟨s, run_proceed_zero h base f path outcome s⟩
  · exact Or.inr ⟨pending, rfl⟩

/-! ## The induction along a run -/

/-- A run from a floor keeps a property of what has been asked and of the floor, and ends when all
files are done. -/
def Keeps (h : Handler Linter σ) (limit : Nat) (base : Config)
    (P : List (Exchange Linter) → Floor → Prop) (f : Floor) : Prop :=
  ∀ es s, P es f →
    P (es ++ (runAll limit base f).transcript h s) ((runAll limit base f).run h s).1 ∧
      ((runAll limit base f).run h s).1.IsDone

section Invariant

variable {h : Handler Linter σ} {limit : Nat} (hl : 0 < limit) {base : Config}
  {P : List (Exchange Linter) → Floor → Prop} (fill : ∀ es f, P es f → P es (f.fill limit))
  (look : ∀ es f t queue s, f.queue = t :: queue → P es f →
    P (es ++ ((f.withQueue queue).look base t).transcript h s)
      (((f.withQueue queue).look base t).run h s).1)

include fill look

/-- A run keeps what filling and looking keep, if it does so from every floor that the first look
can lead to. -/
theorem keeps_of_look {f : Floor} {t : Task} {queue : List Task}
    (hq : (f.fill limit).queue = t :: queue)
    (hnext : ∀ s, Keeps h limit base P
      ((((f.fill limit).withQueue queue).look base t).run h s).1) :
    Keeps h limit base P f := by
  intro es s hf
  rw [runAll_of_cons base hq, Dialogue.run_bind, Dialogue.transcript_bind, ← List.append_assoc]
  exact hnext s _ _ (look es _ t queue s hq (fill es f hf))

include hl in
/-- **What filling and looking keep, a run keeps.**  A property of what has been asked and of the
floor that is kept by letting files join and by every look at the head of the queue holds after the
run, and then all files are done. -/
theorem runAll_invariant (f : Floor) : Keeps h limit base P f := by
  induction f using runAll.induct limit with
  | case1 f hq =>
    intro es s hf
    rw [runAll_of_nil base hq, Dialogue.pure_eq, Dialogue.run_done, Dialogue.transcript_done,
      List.append_nil]
    exact ⟨fill es f hf, Floor.isDone_fill hl hq⟩
  | case2 f path queue hq ihDone ihPending =>
    refine keeps_of_look fill look hq fun s => ?_
    rw [Floor.look, run_ask]
    rcases ((h (.read path) s).1 : Reading) with ⟨_ | pending, outcome⟩
    · rw [run_proceed_zero]
      exact ihDone _ _
    · exact ihPending pending outcome
  | case3 f path outcome queue hq ih =>
    refine keeps_of_look fill look hq fun s => ?_
    rw [Floor.look, run_proceed_zero]
    exact ih _ _
  | case4 f path pending outcome queue hq ih =>
    exact keeps_of_look fill look hq fun s => ih

end Invariant

end LintSetup.Inspection
