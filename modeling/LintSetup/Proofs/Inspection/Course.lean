import LintSetup.Inspection.Run
import LintSetup.Proofs.Dialogue
import LintSetup.Proofs.Inspection.Floor

/-!
# The course of an inspection

What is asked of a linter while files are in flight interleaves: readings start in between, and files
are finished in an order that depends on how long the readings take.  This file says what such a
course looks like, for every linter, every list of files and any number of files at a time.

* `Reaches` --- the moments of a run, one before each look; `leadsToEnd` says that they lead to
  its end, and `Reaches.runAll_eq` that each of them is a moment of it.
* `Finishes` --- files finished one after another, each against the pool that the one before it
  left.  Apart from the readings, a run asks exactly for this (`Accounts.settled`).
* `Accounts` --- what filling and looking keep: every file is started once and in its turn, every
  file whose reading has started is in the queue or finished, and none is lost.
* `Course` --- the ways in which an inspection can go.
-/

namespace LintSetup.Inspection

open scoped List

variable {σ : Type}

/-! ## Readings and progress in a transcript -/

/-- A reading that has been started: the path of the file, and what comes of it. -/
abbrev Read := String × Except IoError String

/-- The reading that an exchange started. -/
def read? : Exchange Linter → Option Read
  | ⟨.read path, reading⟩ => some (path, (reading : Reading).outcome)
  | _ => none

/-- The readings that were started. -/
def readings (es : List (Exchange Linter)) : List Read := es.filterMap read?

/-- The exchanges that started no reading. -/
def besidesReadings (es : List (Exchange Linter)) : List (Exchange Linter) :=
  es.filter fun e => (read? e).isNone

/-- What an exchange told the progress display. -/
def progress? : Exchange Linter → Option Request
  | ⟨.started total, _⟩ => some (.started total)
  | ⟨.ticked, _⟩ => some .ticked
  | ⟨.finished, _⟩ => some .finished
  | _ => none

/-- What the progress display was told. -/
def progress (es : List (Exchange Linter)) : List Request := es.filterMap progress?

@[simp] theorem readings_append (es fs : List (Exchange Linter)) :
    readings (es ++ fs) = readings es ++ readings fs :=
  List.filterMap_append

@[simp] theorem besidesReadings_append (es fs : List (Exchange Linter)) :
    besidesReadings (es ++ fs) = besidesReadings es ++ besidesReadings fs :=
  List.filter_append ..

@[simp] theorem progress_append (es fs : List (Exchange Linter)) :
    progress (es ++ fs) = progress es ++ progress fs :=
  List.filterMap_append

/-- Starting a reading is no progress. -/
theorem progress_besidesReadings (es : List (Exchange Linter)) :
    progress (besidesReadings es) = progress es := by
  rw [progress, besidesReadings, List.filterMap_filter, progress]
  refine List.filterMap_congr fun e _ => ?_
  obtain ⟨r, a⟩ := e
  cases r <;> rfl

/-! ## Finishing a file -/

/-- Whether a request is part of the trials of a text. -/
def Request.IsTrial : Request → Prop
  | verify .. | release _ => True
  | rules | effectiveConfig _ | listFiles _ | read _ | started _ | ticked | finished | warn _ => False

theorem always_keepHandle (kept back : Option Handle) :
    (keepHandle kept back).Always Request.IsTrial := by
  rcases kept with _ | k
  · exact Dialogue.always_pure _
  · rcases back with _ | b
    · exact Dialogue.always_pure _
    · exact (Dialogue.always_ask trivial).bind fun _ => Dialogue.always_pure _

theorem always_tryAll (base : Config) (text path : String) (cs : List (Nat × Candidate))
    (t : Trials) : (tryAll base text path cs t).Always Request.IsTrial := by
  induction cs generalizing base t with
  | nil => exact Dialogue.always_pure t
  | cons m rest ih =>
    refine (Dialogue.always_ask trivial).bind fun answer => ?_
    rcases (answer : Except Failure Verification) with _ | v
    · exact ih _ t
    · dsimp only
      split
      · exact Dialogue.always_pure _
      · exact (always_keepHandle _ _).bind fun _ => ih _ _

/-- The inspection of a text asks for trials only. -/
theorem always_inspectText (base : Config) (text path : String) (pool : Pool) :
    (inspectText base text path pool).Always Request.IsTrial := by
  refine (always_tryAll base text path pool.live {}).bind fun t => ?_
  have hrelease : (releaseKept t.handle).Always Request.IsTrial := by
    rcases t.handle with _ | k
    · exact Dialogue.always_pure _
    · exact Dialogue.always_ask trivial
  exact hrelease.bind fun _ => Dialogue.always_pure _

/-- Trials start no reading and are no progress. -/
theorem eq_of_isTrial {es : List (Exchange Linter)} (h : ∀ e ∈ es, e.asked.IsTrial) :
    readings es = [] ∧ besidesReadings es = es ∧ progress es = [] := by
  have hnone : ∀ e ∈ es, read? e = none ∧ progress? e = none := by
    intro e he
    have htrial := h e he
    obtain ⟨r, a⟩ := e
    cases r with
    | verify => exact ⟨rfl, rfl⟩
    | release => exact ⟨rfl, rfl⟩
    | _ => exact htrial.elim
  refine ⟨List.filterMap_eq_nil_iff.mpr fun e he => (hnone e he).1,
    List.filter_eq_self.mpr fun e he => ?_,
    List.filterMap_eq_nil_iff.mpr fun e he => (hnone e he).2⟩
  rw [(hnone e he).1, Option.isNone_none]

/-- What is asked when a file is finished starts no reading, and the display is told once. -/
theorem transcript_finishFile (h : Handler Linter σ) (base : Config) (path : String)
    (outcome : Except IoError String) (pool : Pool) (s : σ) :
    readings ((finishFile base path outcome pool).transcript h s) = [] ∧
      besidesReadings ((finishFile base path outcome pool).transcript h s) =
        (finishFile base path outcome pool).transcript h s ∧
      progress ((finishFile base path outcome pool).transcript h s) = [.ticked] := by
  cases outcome with
  | error e => exact ⟨rfl, rfl, rfl⟩
  | ok text =>
    obtain ⟨hread, hbesides, hprogress⟩ :=
      eq_of_isTrial ((always_inspectText base text path pool).of_transcript h s)
    have htick : (finishFile base path (.ok text) pool).transcript h s =
        (inspectText base text path pool).transcript h s ++ [⟨.ticked, (h .ticked
          ((inspectText base text path pool).run h s).2).1⟩] := by
      rw [finishFile, Dialogue.transcript_bind]
      rfl
    rw [htick, readings_append, besidesReadings_append, progress_append, hread, hbesides, hprogress]
    exact ⟨rfl, rfl, rfl⟩

/-- A file that was read is reported under its path. -/
theorem exists_run_finishFile_ok (h : Handler Linter σ) (base : Config) (path text : String)
    (pool : Pool) (s : σ) :
    ∃ report pool', ((finishFile base path (.ok text) pool).run h s).1 = (.ok report, pool') ∧
      report.path = path := by
  refine ⟨((inspectText base text path pool).run h s).1.1,
    ((inspectText base text path pool).run h s).1.2, ?_, ?_⟩
  · rw [finishFile, Dialogue.run_bind]
    rfl
  · rw [run_inspectText, conclude]
    split <;> rfl

/-- Files are finished one after another: what their readings came to, what is asked meanwhile, the
outcomes, and the pool that is left.  Each file is finished against the pool that the one before it
left. -/
inductive Finishes (h : Handler Linter σ) (base : Config) (pool : Pool) :
    List Read → List (Exchange Linter) → List (Except ReadFailure FileReport) → Pool → Prop
  | nil : Finishes h base pool [] [] [] pool
  | snoc {done : List Read} {es : List (Exchange Linter)}
    {outcomes : List (Except ReadFailure FileReport)} {left : Pool}
    (hdone : Finishes h base pool done es outcomes left) (path : String)
    (outcome : Except IoError String) (s : σ) :
    Finishes h base pool (done ++ [(path, outcome)])
      (es ++ (finishFile base path outcome left).transcript h s)
      (outcomes ++ [((finishFile base path outcome left).run h s).1.1])
      ((finishFile base path outcome left).run h s).1.2

/-- The failure of a reading, if it failed. -/
def Read.failure? : Read → Option ReadFailure
  | (path, .error e) => some ⟨path, e⟩
  | (_, .ok _) => none

/-- The path of a file that was read, if it could be. -/
def Read.path? : Read → Option String
  | (_, .error _) => none
  | (path, .ok _) => some path

/-- Where no reading failed, every file was read. -/
theorem filterMap_path?_eq_map {done : List Read} (hd : done.filterMap Read.failure? = []) :
    done.filterMap Read.path? = done.map (·.1) := by
  rw [← List.filterMap_eq_map]
  refine List.filterMap_congr fun r hr => ?_
  obtain ⟨path, e | text⟩ := r
  · cases List.filterMap_eq_nil_iff.mp hd _ hr
  · rfl

namespace Finishes

variable {h : Handler Linter σ} {base : Config} {pool left : Pool} {done : List Read}
  {es : List (Exchange Linter)} {outcomes : List (Except ReadFailure FileReport)}

/-- The display is told once for each file. -/
theorem progress_eq (hd : Finishes h base pool done es outcomes left) :
    progress es = List.replicate outcomes.length .ticked := by
  induction hd with
  | nil => rfl
  | snoc hd path outcome s ih =>
    rw [progress_append, ih, (transcript_finishFile h base path outcome _ s).2.2,
      List.length_append, List.length_singleton, List.replicate_succ']

/-- The failures are those of the readings, in the same order. -/
theorem failures_eq (hd : Finishes h base pool done es outcomes left) :
    failures outcomes = done.filterMap Read.failure? := by
  induction hd with
  | nil => rfl
  | @snoc done es outcomes left _ path outcome s ih =>
    rw [failures, List.filterMap_append, ← failures, ih, List.filterMap_append]
    cases outcome with
    | error e => rfl
    | ok text =>
      obtain ⟨report, pool', hrun, -⟩ := exists_run_finishFile_ok h base path text left s
      rw [hrun]
      rfl

/-- The files that were read are reported, in the same order. -/
theorem reports_eq (hd : Finishes h base pool done es outcomes left) :
    (reports outcomes).map (·.path) = done.filterMap Read.path? := by
  induction hd with
  | nil => rfl
  | @snoc done es outcomes left _ path outcome s ih =>
    rw [reports, List.filterMap_append, List.map_append, ← reports, ih, List.filterMap_append]
    cases outcome with
    | error e => rfl
    | ok text =>
      obtain ⟨report, pool', hrun, rfl⟩ := exists_run_finishFile_ok h base path text left s
      rw [hrun]
      rfl

end Finishes

/-! ## The moments of a run -/

/-- The moments of a run from a floor, one before each look: after asking `es` the run has come to
the floor `g`, and the linter to the state `s'`. -/
inductive Reaches (h : Handler Linter σ) (limit : Nat) (base : Config) (f : Floor) (s : σ) :
    List (Exchange Linter) → Floor → σ → Prop
  | start : Reaches h limit base f s [] f s
  | look {es : List (Exchange Linter)} {g : Floor} {s' : σ} {t : Task} {queue : List Task}
    (hg : Reaches h limit base f s es g s') (hq : (g.fill limit).queue = t :: queue) :
    Reaches h limit base f s
      (es ++ (((g.fill limit).withQueue queue).look base t).transcript h s')
      ((((g.fill limit).withQueue queue).look base t).run h s').1
      ((((g.fill limit).withQueue queue).look base t).run h s').2

section Moments

variable {h : Handler Linter σ} {limit : Nat} {base : Config} {f g : Floor} {s s' : σ}
  {es : List (Exchange Linter)}

/-- What comes after a moment is what a run from there comes to. -/
theorem Reaches.runAll_eq (hg : Reaches h limit base f s es g s') :
    (runAll limit base f).transcript h s = es ++ (runAll limit base g).transcript h s' ∧
      (runAll limit base f).run h s = (runAll limit base g).run h s' := by
  induction hg with
  | start => exact ⟨rfl, rfl⟩
  | look hg hq ih =>
    rw [runAll_of_cons base hq, Dialogue.transcript_bind, Dialogue.run_bind] at ih
    rwa [List.append_assoc]

/-- A file that is finished stays so: later outcomes are added after it. -/
theorem Reaches.isPrefix_outcomes (hg : Reaches h limit base f s es g s') :
    f.outcomes <+: g.outcomes := by
  induction hg with
  | start => exact List.prefix_rfl
  | @look _ g s' t queue _ hq ih =>
    refine ih.trans ?_
    rcases run_look h base ((g.fill limit).withQueue queue) t s' with ⟨s₁, hrun⟩ | ⟨pending, hrun⟩
    · rw [hrun]
      exact List.prefix_append _ _
    · rw [hrun]
      exact List.prefix_rfl

/-- A moment after the first look is a moment of the run. -/
theorem Reaches.of_look {t : Task} {queue : List Task} (hq : (f.fill limit).queue = t :: queue)
    (hg : Reaches h limit base ((((f.fill limit).withQueue queue).look base t).run h s).1
      ((((f.fill limit).withQueue queue).look base t).run h s).2 es g s') :
    Reaches h limit base f s
      ((((f.fill limit).withQueue queue).look base t).transcript h s ++ es) g s' := by
  induction hg with
  | start =>
    rw [List.append_nil]
    exact .look .start hq
  | look _ hq' ih =>
    rw [← List.append_assoc]
    exact .look ih hq'

/-- Where there is room and nobody joins, filling does nothing. -/
theorem Floor.fill_eq_self (hl : 0 < limit) (hq : (f.fill limit).queue = []) :
    f.fill limit = f := by
  obtain ⟨hnone, hjoin⟩ := List.append_eq_nil_iff.mp hq
  have hrest : f.waiting.drop (limit - f.queue.length) = [] := (Floor.isDone_fill hl hq).2
  have hwaiting : f.waiting = [] := by
    rw [← List.take_append_drop (limit - f.queue.length) f.waiting, List.map_eq_nil_iff.mp hjoin,
      hrest, List.append_nil]
  rw [Floor.fill, hwaiting, List.take_nil, List.drop_nil, List.map_nil, List.append_nil, ← hwaiting]

/-- A run leads to a floor on which no file is left. -/
def LeadsToEnd (h : Handler Linter σ) (limit : Nat) (base : Config) (f : Floor) (s : σ) : Prop :=
  Reaches h limit base f s ((runAll limit base f).transcript h s)
      ((runAll limit base f).run h s).1 ((runAll limit base f).run h s).2 ∧
    ((runAll limit base f).run h s).1.IsDone

theorem LeadsToEnd.of_look {t : Task} {queue : List Task} (hq : (f.fill limit).queue = t :: queue)
    (hnext : ∀ s', LeadsToEnd h limit base
      ((((f.fill limit).withQueue queue).look base t).run h s).1 s') :
    LeadsToEnd h limit base f s := by
  rw [LeadsToEnd, runAll_of_cons base hq, Dialogue.run_bind, Dialogue.transcript_bind]
  exact ⟨.of_look hq (hnext _).1, (hnext _).2⟩

variable (h base) in
/-- A run comes to an end. -/
theorem leadsToEnd (hl : 0 < limit) (f : Floor) (s : σ) : LeadsToEnd h limit base f s := by
  -- the looks are those of the definition, so the induction is the one that it ends by
  induction f using runAll.induct limit generalizing s with
  | case1 f hq =>
    have hdone := Floor.isDone_fill hl hq
    rw [Floor.fill_eq_self hl hq] at hdone
    rw [LeadsToEnd, runAll_of_nil base hq, Floor.fill_eq_self hl hq]
    exact ⟨.start, hdone⟩
  | case2 f path queue hq ihDone ihPending =>
    refine LeadsToEnd.of_look hq fun s' => ?_
    rw [Floor.look, run_ask]
    rcases ((h (.read path) s).1 : Reading) with ⟨_ | pending, outcome⟩
    · rw [run_proceed_zero]
      exact ihDone _ _ s'
    · exact ihPending pending outcome s'
  | case3 f path outcome queue hq ih =>
    refine LeadsToEnd.of_look hq fun s' => ?_
    rw [Floor.look, run_proceed_zero]
    exact ih _ _ s'
  | case4 f path pending outcome queue hq ih => exact LeadsToEnd.of_look hq fun s' => ih s'

end Moments

/-! ## What filling and looking keep -/

/-- The path of a file in flight whose reading has not started. -/
def Task.fresh? : Task → Option String
  | .fresh path => some path
  | .reading .. => none

/-- The reading of a file in flight, if it has started. -/
def Task.read? : Task → Option Read
  | .fresh _ => none
  | .reading path _ outcome => some (path, outcome)

/-- Starts the reading of a file in flight unless it has started. -/
def Task.begin : Task → Session Reading
  | .fresh path => ask (.read path)
  | .reading _ pending outcome => pure ⟨pending, outcome⟩

theorem Floor.look_eq (base : Config) (f : Floor) (t : Task) :
    f.look base t = t.begin >>= fun reading =>
      f.proceed base t.path reading.pending reading.outcome := by
  cases t <;> rfl

section Begin

variable (h : Handler Linter σ) (t : Task) (s : σ)

/-- What a look at a file has asked before it goes on: the reading, if it had not started. -/
theorem transcript_begin :
    (readings (t.begin.transcript h s)).map (·.1) = t.fresh?.toList ∧
      t.read?.toList ++ readings (t.begin.transcript h s) =
        [(t.path, (t.begin.run h s).1.outcome)] ∧
      besidesReadings (t.begin.transcript h s) = [] := by
  cases t <;> exact ⟨rfl, rfl, rfl⟩

end Begin

/-- The books of a run under way.  Files are started in the order in which they are listed; apart
from starting readings, what was asked is the finishing of files one after another; a file whose
reading has started is finished or in the queue; none is lost; and the queue keeps to its limit. -/
structure Accounts (h : Handler Linter σ) (base : Config) (limit : Nat) (pool : Pool)
    (files : List String) (es : List (Exchange Linter)) (f : Floor) : Prop where
  started : (readings es).map (·.1) ++ (f.queue.filterMap Task.fresh? ++ f.waiting) = files
  settled : ∃ done, Finishes h base pool done (besidesReadings es) f.outcomes f.pool ∧
    (done ++ f.queue.filterMap Task.read?).Perm (readings es)
  size : f.outcomes.length + (f.queue.length + f.waiting.length) = files.length
  room : f.queue.length ≤ limit

/-- A file that goes on after its reading has started is finished, or it is put back. -/
theorem transcript_proceed (h : Handler Linter σ) (base : Config) (f : Floor) (path : String)
    (outcome : Except IoError String) (s : σ) :
    (f.proceed base path 0 outcome).transcript h s =
        (finishFile base path outcome f.pool).transcript h s ∧
      ∀ pending, (f.proceed base path (pending + 1) outcome).transcript h s = [] := by
  refine ⟨?_, fun _ => rfl⟩
  rw [Floor.proceed, Dialogue.transcript_bind, Dialogue.pure_eq, Dialogue.transcript_done,
    List.append_nil]

theorem filterMap_cons_toList {α β : Type} (g : α → Option β) (a : α) (l : List α) :
    (a :: l).filterMap g = (g a).toList ++ l.filterMap g := by
  cases hg : g a <;> simp [hg]

section Accounts

variable {h : Handler Linter σ} {base : Config} {limit : Nat} {pool : Pool} {files : List String}
  {es : List (Exchange Linter)} {f : Floor}

theorem accounts_start (h : Handler Linter σ) (base : Config) (limit : Nat) (pool : Pool)
    (files : List String) : Accounts h base limit pool files [] ⟨[], files, pool, []⟩ where
  started := rfl
  settled := ⟨[], .nil, .nil⟩
  size := by simp
  room := Nat.zero_le limit

/-- Filling puts as many files in flight as there is room for. -/
theorem length_queue_fill (hroom : f.queue.length ≤ limit) :
    (f.fill limit).queue.length = min limit (f.queue.length + f.waiting.length) := by
  rw [Floor.fill, List.length_append, List.length_map, List.length_take]
  omega

theorem Accounts.fill (hf : Accounts h base limit pool files es f) :
    Accounts h base limit pool files es (f.fill limit) where
  started := by
    have hfresh : (f.fill limit).queue.filterMap Task.fresh? ++ (f.fill limit).waiting =
        f.queue.filterMap Task.fresh? ++ f.waiting := by
      have hmap : Task.fresh? ∘ Task.fresh = some := rfl
      rw [Floor.fill, List.filterMap_append, List.filterMap_map, hmap, List.filterMap_some,
        List.append_assoc, List.take_append_drop]
    rw [hfresh, hf.started]
  settled := by
    have hread : (f.fill limit).queue.filterMap Task.read? = f.queue.filterMap Task.read? := by
      have hmap : Task.read? ∘ Task.fresh = fun _ => none := rfl
      rw [Floor.fill, List.filterMap_append, List.filterMap_map, hmap]
      simp
    rw [hread]
    exact hf.settled
  size := by
    have hlen : (f.fill limit).queue.length + (f.fill limit).waiting.length =
        f.queue.length + f.waiting.length := by
      rw [Floor.fill, List.length_append, List.length_map, List.length_take, List.length_drop]
      omega
    rw [hlen]
    exact hf.size
  room := by
    rw [length_queue_fill hf.room]
    exact Nat.min_le_left _ _

/-- Starting a reading moves a file from those that are to be started to those that are. -/
theorem Accounts.begin {t : Task} {queue : List Task} (hq : f.queue = t :: queue)
    (hf : Accounts h base limit pool files es f) (s : σ) :
    Accounts h base limit pool files (es ++ t.begin.transcript h s)
      (f.withQueue (.reading t.path (t.begin.run h s).1.pending (t.begin.run h s).1.outcome ::
        queue)) := by
  obtain ⟨hfresh, hread, hbesides⟩ := transcript_begin h t s
  obtain ⟨done, hdone, hperm⟩ := hf.settled
  have hstarted := hf.started
  rw [hq, filterMap_cons_toList] at hperm hstarted
  generalize (t.begin.run h s).1 = reading at hread ⊢
  generalize t.begin.transcript h s = opening at hfresh hread hbesides ⊢
  have hsize := hf.size
  have hroom := hf.room
  rw [hq] at hsize hroom
  refine ⟨?_, ⟨done, ?_, ?_⟩, hsize, hroom⟩
  · rw [readings_append, List.map_append, hfresh, List.append_assoc]
    change _ ++ (t.fresh?.toList ++ (queue.filterMap Task.fresh? ++ f.waiting)) = files
    rw [← List.append_assoc t.fresh?.toList]
    exact hstarted
  · rw [besidesReadings_append, hbesides, List.append_nil]
    exact hdone
  · rw [readings_append]
    calc done ++ ((t.path, reading.outcome) :: queue.filterMap Task.read?)
      _ = done ++ (t.read?.toList ++ (readings opening ++ queue.filterMap Task.read?)) := by
        rw [← List.append_assoc t.read?.toList, hread, List.singleton_append]
      _ ~ done ++ (t.read?.toList ++ (queue.filterMap Task.read? ++ readings opening)) :=
        (List.perm_append_comm.append_left _).append_left _
      _ = done ++ (t.read?.toList ++ queue.filterMap Task.read?) ++ readings opening := by
        simp only [List.append_assoc]
      _ ~ readings es ++ readings opening := hperm.append_right _

/-- A file that is put back has been started and is not finished, as before. -/
theorem Accounts.putBack {path : String} {before after : Nat} {outcome : Except IoError String}
    {queue : List Task} (hq : f.queue = .reading path before outcome :: queue)
    (hf : Accounts h base limit pool files es f) :
    Accounts h base limit pool files es
      (f.withQueue (queue ++ [.reading path after outcome])) := by
  obtain ⟨done, hdone, hperm⟩ := hf.settled
  have hstarted := hf.started
  have hsize := hf.size
  have hroom := hf.room
  rw [hq] at hperm hstarted hsize hroom
  refine ⟨?_, ⟨done, hdone, ?_⟩, ?_, ?_⟩
  · have hnone : [Task.reading path after outcome].filterMap Task.fresh? = [] := rfl
    rw [Floor.withQueue, List.filterMap_append, hnone, List.append_nil]
    exact hstarted
  · rw [Floor.withQueue, List.filterMap_append]
    exact (List.perm_append_comm.append_left _).trans hperm
  · rw [Floor.withQueue, List.length_append, List.length_singleton]
    exact hsize
  · rw [Floor.withQueue, List.length_append, List.length_singleton]
    exact hroom

/-- A file whose reading has ended is finished against the pool that the files before it left. -/
theorem Accounts.finish {path : String} {pending : Nat} {outcome : Except IoError String}
    {queue : List Task} (hq : f.queue = .reading path pending outcome :: queue)
    (hf : Accounts h base limit pool files es f) (s : σ) :
    Accounts h base limit pool files (es ++ (finishFile base path outcome f.pool).transcript h s)
      ((f.withQueue queue).finish ((finishFile base path outcome f.pool).run h s).1) := by
  obtain ⟨hnone, hall, -⟩ := transcript_finishFile h base path outcome f.pool s
  obtain ⟨done, hdone, hperm⟩ := hf.settled
  have hstarted := hf.started
  have hsize := hf.size
  have hroom := hf.room
  rw [hq] at hperm hstarted hsize hroom
  rw [List.length_cons] at hsize hroom
  refine ⟨?_, ⟨done ++ [(path, outcome)], ?_, ?_⟩, ?_, ?_⟩
  · rw [readings_append, hnone, List.append_nil]
    exact hstarted
  · rw [besidesReadings_append, hall]
    exact hdone.snoc path outcome s
  · rw [readings_append, hnone, List.append_nil, List.append_assoc, List.singleton_append]
    exact hperm
  · change (f.outcomes ++ [_]).length + (queue.length + f.waiting.length) = files.length
    rw [List.length_append, List.length_singleton]
    omega
  · change queue.length ≤ limit
    omega

/-- A look keeps the books. -/
theorem Accounts.look {t : Task} {queue : List Task} (hq : f.queue = t :: queue)
    (hf : Accounts h base limit pool files es f) (s : σ) :
    Accounts h base limit pool files
      (es ++ ((f.withQueue queue).look base t).transcript h s)
      (((f.withQueue queue).look base t).run h s).1 := by
  have hbegun := hf.begin hq s
  rw [Floor.look_eq, Dialogue.transcript_bind, Dialogue.run_bind, ← List.append_assoc]
  generalize (t.begin.run h s).2 = s₁
  generalize (t.begin.run h s).1 = reading at hbegun ⊢
  obtain ⟨_ | pending, outcome⟩ := reading
  · rw [(transcript_proceed h base _ _ outcome s₁).1, run_proceed_zero]
    exact hbegun.finish rfl s₁
  · rw [(transcript_proceed h base _ _ outcome s₁).2, List.append_nil]
    exact Accounts.putBack (f := f.withQueue (.reading t.path (pending + 1) outcome :: queue)) rfl
      hbegun

/-- The books are right at every moment of a run. -/
theorem Reaches.accounts {s s' : σ} {g : Floor}
    (hg : Reaches h limit base ⟨[], files, pool, []⟩ s es g s') :
    Accounts h base limit pool files es g := by
  induction hg with
  | start => exact accounts_start h base limit pool files
  | look _ hq ih => exact ih.fill.look hq _

end Accounts

/-! ## The run of all files -/

/-- How a run goes through files, at most `limit` at a time: it asks `es`, finishes the files in the
order of `done`, and ends on the floor `g`. -/
structure Runs (h : Handler Linter σ) (limit : Nat) (base : Config) (pool : Pool)
    (files : List String) (s : σ) (es : List (Exchange Linter)) (done : List Read) (g : Floor) :
    Prop where
  /-- The looks lead to an end, where no file is in flight and none is to come. -/
  ends : (∃ s', Reaches h limit base ⟨[], files, pool, []⟩ s es g s') ∧ g.IsDone
  /-- Before each look as many files are in flight as there is room for and are not finished, and
  the display was told of each file that is finished.  The outcomes of these files come first in
  the end. -/
  moments : ∀ {es' : List (Exchange Linter)} {g' : Floor} {s' : σ},
    Reaches h limit base ⟨[], files, pool, []⟩ s es' g' s' →
      es' <+: es ∧ g'.outcomes <+: g.outcomes ∧ g'.queue.length ≤ limit ∧
        (g'.fill limit).queue.length = min limit (files.length - g'.outcomes.length) ∧
        progress es' = List.replicate g'.outcomes.length .ticked
  /-- Every listed file is read once, in its turn. -/
  read : (readings es).map (·.1) = files
  /-- Every file that was read is finished, whatever its reading came to. -/
  all : done.Perm (readings es)
  /-- Apart from starting readings, what is asked is the finishing of files one after another. -/
  finishes : Finishes h base pool done (besidesReadings es) g.outcomes g.pool
  /-- The display is told of every file. -/
  ticks : progress es = List.replicate files.length .ticked

/-- A run goes through all files. -/
theorem exists_runs_runAll (h : Handler Linter σ) {limit : Nat} (hl : 0 < limit) (base : Config)
    (pool : Pool) (files : List String) (s : σ) :
    ∃ done, Runs h limit base pool files s
      ((runAll limit base ⟨[], files, pool, []⟩).transcript h s) done
      ((runAll limit base ⟨[], files, pool, []⟩).run h s).1 := by
  obtain ⟨hend, hdone⟩ := leadsToEnd h base hl ⟨[], files, pool, []⟩ s
  have haccounts := hend.accounts
  obtain ⟨hqueue, hwaiting⟩ := hdone
  obtain ⟨done, hfinishes, hperm⟩ := haccounts.settled
  have hstarted := haccounts.started
  have hsize := haccounts.size
  rw [hqueue, hwaiting, List.filterMap_nil, List.append_nil, List.append_nil] at hstarted
  rw [hqueue, List.filterMap_nil, List.append_nil] at hperm
  simp only [hqueue, hwaiting, List.length_nil, Nat.add_zero] at hsize
  refine ⟨done, ⟨⟨_, hend⟩, hqueue, hwaiting⟩, ?_, hstarted, hperm, hfinishes, ?_⟩
  · intro es' g' s' hg
    have hmoment := hg.accounts
    obtain ⟨done', hfinishes', -⟩ := hmoment.settled
    have hrest := (leadsToEnd h base hl g' s').1.isPrefix_outcomes
    rw [← hg.runAll_eq.2] at hrest
    refine ⟨⟨_, hg.runAll_eq.1.symm⟩, hrest, hmoment.room, ?_, ?_⟩
    · have hsize' := hmoment.size
      rw [length_queue_fill hmoment.room]
      omega
    · rw [← progress_besidesReadings, hfinishes'.progress_eq]
  · rw [← progress_besidesReadings, hfinishes.progress_eq, hsize]

theorem transcript_warnAll (h : Handler Linter σ) (failed : List ReadFailure) (s : σ) :
    (warnAll failed).transcript h s = failed.map fun f => ⟨.warn f.message, ()⟩ := by
  induction failed generalizing s with
  | nil => rfl
  | cons f rest ih =>
    rw [warnAll, transcript_ask, ih]
    rfl

theorem transcript_runFiles (h : Handler Linter σ) (limit : Nat) (config : Config)
    (files : List String) (pool : Pool) (s : σ) :
    (runFiles limit config files pool).transcript h s =
      ⟨.started files.length, ()⟩ ::
        ((runAll limit config ⟨[], files, pool, []⟩).transcript h
          (h (.started files.length) s).2 ++ [⟨.finished, ()⟩]) := by
  rw [runFiles, transcript_ask, Dialogue.transcript_bind]
  rfl

theorem run_runFiles (h : Handler Linter σ) (limit : Nat) (config : Config)
    (files : List String) (pool : Pool) (s : σ) :
    ((runFiles limit config files pool).run h s).1 =
      ((runAll limit config ⟨[], files, pool, []⟩).run h (h (.started files.length) s).2).1 := by
  rw [runFiles, run_ask, Dialogue.run_bind]
  rfl

/-! ## The inspection -/

/-- The ways in which an inspection can go: what is asked, with the answers, and what it comes to.
-/
inductive Course (h : Handler Linter σ) (settings : Settings) (base : Config)
    (patterns : List String) (s : σ) :
    List (Exchange Linter) → Except InspectError Outcome → Prop
  /-- There are no rules to be had; then nothing else is asked. -/
  | noCatalog {f : Failure} {s₁ : σ} (rules : h .rules s = (Except.error f, s₁)) :
    Course h settings base patterns s [⟨.rules, Except.error f⟩] (.error (.catalog f))
  /-- The base does not amount to a configuration. -/
  | noConfig {catalog : List Rule} {f : Failure} {s₁ s₂ : σ}
    (rules : h .rules s = (Except.ok catalog, s₁))
    (effective : h (.effectiveConfig base) s₁ = (Except.error f, s₂)) :
    Course h settings base patterns s
      [⟨.rules, Except.ok catalog⟩, ⟨.effectiveConfig base, Except.error f⟩] (.error (.config f))
  /-- The files cannot be listed. -/
  | noListing {catalog : List Rule} {config : Config} {f : Failure} {s₁ s₂ s₃ : σ}
    (rules : h .rules s = (Except.ok catalog, s₁))
    (effective : h (.effectiveConfig base) s₁ = (Except.ok config, s₂))
    (listing : h (.listFiles patterns) s₂ = (Except.error f, s₃)) :
    Course h settings base patterns s
      [⟨.rules, Except.ok catalog⟩, ⟨.effectiveConfig base, Except.ok config⟩,
        ⟨.listFiles patterns, Except.error f⟩] (.error (.listFiles patterns f))
  /-- All files are gone through and could be read.  There is one report for each listed file, in
  the order in which the files were finished. -/
  | inspected {catalog : List Rule} {config : Config} {files : List String} {s₁ s₂ s₃ : σ}
    {during : List (Exchange Linter)} {done : List Read} {g : Floor} {r : Outcome}
    (rules : h .rules s = (Except.ok catalog, s₁))
    (effective : h (.effectiveConfig base) s₁ = (Except.ok config, s₂))
    (listing : h (.listFiles patterns) s₂ = (Except.ok files, s₃))
    (runs : Runs h (max settings.concurrency 1) config
      (Pool.ofList (Options.candidates catalog settings.limit)) files
      (h (.started files.length) s₃).2 during done g)
    (readable : done.filterMap Read.failure? = [])
    (outcome : r = Outcome.ofPool base config catalog patterns g)
    (reported : r.files.map (·.path) = done.map (·.1))
    (complete : (r.files.map (·.path)).Perm files) :
    Course h settings base patterns s
      (⟨.rules, Except.ok catalog⟩ :: ⟨.effectiveConfig base, Except.ok config⟩ ::
        ⟨.listFiles patterns, Except.ok files⟩ :: ⟨.started files.length, ()⟩ ::
        (during ++ [⟨.finished, ()⟩])) (.ok r)
  /-- All files are gone through, and some could not be read.  These are what the inspection comes
  to, in the order in which they were finished, and the user is warned of each. -/
  | unreadable {catalog : List Rule} {config : Config} {files : List String} {s₁ s₂ s₃ : σ}
    {during : List (Exchange Linter)} {done : List Read} {g : Floor} {failed : List ReadFailure}
    (rules : h .rules s = (Except.ok catalog, s₁))
    (effective : h (.effectiveConfig base) s₁ = (Except.ok config, s₂))
    (listing : h (.listFiles patterns) s₂ = (Except.ok files, s₃))
    (runs : Runs h (max settings.concurrency 1) config
      (Pool.ofList (Options.candidates catalog settings.limit)) files
      (h (.started files.length) s₃).2 during done g)
    (failures : failed = done.filterMap Read.failure?) (unread : failed ≠ []) :
    Course h settings base patterns s
      (⟨.rules, Except.ok catalog⟩ :: ⟨.effectiveConfig base, Except.ok config⟩ ::
        ⟨.listFiles patterns, Except.ok files⟩ :: ⟨.started files.length, ()⟩ ::
        (during ++ ⟨.finished, ()⟩ :: failed.map fun f => ⟨.warn f.message, ()⟩))
      (.error (.unreadable failed))

/-- **How an inspection goes.**  For every linter, whatever it answers and whatever state it keeps,
an inspection goes in one of the ways of `Course`; in particular it comes to an end. -/
theorem course_inspectFiles (h : Handler Linter σ) (s : σ) (settings : Settings) (base : Config)
    (patterns : List String) :
    Course h settings base patterns s ((inspectFiles settings base patterns).transcript h s)
      ((inspectFiles settings base patterns).run h s).1 := by
  rw [inspectFiles, Dialogue.transcript_bind, Dialogue.run_bind, survey, transcript_ask, run_ask]
  rcases rules : h .rules s with ⟨answer, s₁⟩
  rcases (answer : Except Failure (List Rule)) with f | catalog
  · exact .noCatalog rules
  dsimp only
  rw [transcript_ask, run_ask]
  rcases effective : h (.effectiveConfig base) s₁ with ⟨answer, s₂⟩
  rcases (answer : Except Failure Config) with f | config
  · exact .noConfig rules effective
  dsimp only
  rw [transcript_ask, run_ask]
  rcases listing : h (.listFiles patterns) s₂ with ⟨answer, s₃⟩
  rcases (answer : Except Failure (List String)) with f | files
  · exact .noListing rules effective listing
  obtain ⟨done, hruns⟩ := exists_runs_runAll h (Nat.le_max_right settings.concurrency 1) config
    (Pool.ofList (Options.candidates catalog settings.limit)) files (h (.started files.length) s₃).2
  dsimp only
  rw [Dialogue.transcript_bind, Dialogue.run_bind, run_runFiles, transcript_runFiles]
  generalize (runAll _ config _).transcript h _ = during at hruns ⊢
  generalize ((runAll _ config _).run h _).1 = g at hruns ⊢
  simp only [Dialogue.pure_eq, Dialogue.transcript_done, Dialogue.run_done]
  rw [Dialogue.transcript_bind, Dialogue.run_bind, transcript_warnAll]
  generalize ((warnAll _).run h _).2 = s₄
  have hfailures := hruns.finishes.failures_eq
  rcases hfailed : failures g.outcomes with _ | ⟨f, rest⟩
  · have hnone : done.filterMap Read.failure? = [] := hfailures.symm.trans hfailed
    have hreported : (reports g.outcomes).map (·.path) = done.map (·.1) := by
      rw [hruns.finishes.reports_eq, filterMap_path?_eq_map hnone]
    have hcomplete : ((reports g.outcomes).map (·.path)).Perm files := by
      rw [hreported, ← hruns.read]
      exact hruns.all.map _
    simpa using Course.inspected rules effective listing hruns hnone rfl hreported hcomplete
  · have hsome : (f :: rest : List ReadFailure) ≠ [] := List.cons_ne_nil f rest
    rw [hfailed] at hfailures
    simpa using Course.unreadable rules effective listing hruns hfailures hsome

end LintSetup.Inspection
