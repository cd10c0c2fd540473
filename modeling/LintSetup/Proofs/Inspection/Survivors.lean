import LintSetup.Inspection.Run
import LintSetup.Proofs.Candidate.Eviction
import LintSetup.Proofs.Inspection.Floor

/-!
# What survives an inspection

Files share a pool, and a candidate that one file has disproven is not tried on the files after it.
So the conversations of two runs over the same files can differ in every verification.  What is left
of the pool does not, provided that the linter has one answer to every question.

* `Oracle` --- what such a linter says: its rules, the configuration, the text of every file, and
  the violations in a text under a configuration, or that it failed.
* `Oracle.Speaks` --- that a linter with a state, its handles and the lengths of its readings left
  open, says this.
* `Oracle.spoils` --- that a file disproves a candidate.  This mentions no pool.

A file that is fatal for one candidate and not for another would be fatal or not depending on who
is still live; `Oracle.IsUniform` excludes it.  Then a file takes out of a pool those candidates
that it spoils (`entries_inspectText`), whatever was taken out before, and after a run the live
candidates are those that no file spoils (`survivors_inspectFiles`).
-/

namespace LintSetup.Inspection

variable {σ : Type}

/-- What a linter says that has one answer to every question. -/
structure Oracle where
  catalog : List Rule
  config : Config
  text : String → String
  verdict : String → Config → String → Except Failure (List Violation)

/-- Whether the first violation says that the text could not be parsed. -/
def startsFatal (violations : List Violation) : Bool :=
  (violations.head?.map (·.fatal)).getD false

theorem Verification.isFatal_eq (v : Verification) : v.isFatal = startsFatal v.violations := rfl

namespace Oracle

variable (o : Oracle)

/-- What the linter says about a file under the configuration with one candidate. -/
def onFile (path : String) (c : Candidate) : Except Failure (List Violation) :=
  o.verdict (o.text path) (o.config.withRules c.rules) path

/-- No candidate shows the file to be broken. -/
def parses (cs : List Candidate) (path : String) : Bool :=
  cs.all fun c => match o.onFile path c with
    | .error _ => true
    | .ok violations => !startsFatal violations

/-- Every candidate that can be verified shows the file to be broken. -/
def breaks (cs : List Candidate) (path : String) : Bool :=
  cs.all fun c => match o.onFile path c with
    | .error _ => true
    | .ok violations => startsFatal violations

/-- The rule of a candidate is reported in a file. -/
def reports (path : String) (c : Candidate) : Bool :=
  match o.onFile path c with
  | .error _ => false
  | .ok violations => violations.any (·.ruleId == some c.ruleId)

/-- A file disproves a candidate: it parses, and the rule of the candidate is reported in it. -/
def spoils (cs : List Candidate) (path : String) (c : Candidate) : Bool :=
  o.parses cs path && o.reports path c

/-- No file disproves a candidate. -/
def spares (cs : List Candidate) (files : List String) (c : Candidate) : Bool :=
  files.all fun path => !o.spoils cs path c

/-- Each file is broken for all candidates or for none. -/
def IsUniform (cs : List Candidate) (files : List String) : Prop :=
  ∀ path ∈ files, o.parses cs path = true ∨ o.breaks cs path = true

/-- The candidates of the rules that no file disproves. -/
def survivors (limit : Nat) (files : List String) : List Candidate :=
  (Options.candidates o.catalog limit).filter
    (o.spares (Options.candidates o.catalog limit) files)

/-- Every verification shows the violations that the oracle says, or fails as it says, whichever
handle is passed and whatever was asked before. -/
def Judges (h : Handler Linter σ) : Prop :=
  ∀ text handle config path s,
    ((h (.verify text handle config path) s).1 : Except Failure Verification).map (·.violations) =
      o.verdict text config path

/-- A linter in a state says what the oracle says when a base is inspected with the files that
patterns select.  How long a reading takes, which handles come back and what the state is for are
left open. -/
structure Speaks (h : Handler Linter σ) (s : σ) (base : Config) (patterns files : List String) :
    Prop where
  catalog : (h .rules s).1 = Except.ok o.catalog
  config : (h (.effectiveConfig base) (h .rules s).2).1 = Except.ok o.config
  listing :
    (h (.listFiles patterns) (h (.effectiveConfig base) (h .rules s).2).2).1 = Except.ok files
  text : ∀ path ∈ files, ∀ s, ((h (.read path) s).1 : Reading).outcome = .ok (o.text path)
  verdict : o.Judges h

/-! ## The trials of a file -/

variable {o} {h : Handler Linter σ} (hv : o.Judges h)

include hv

/-- A trial that fails says that the file cannot be verified with the candidate. -/
theorem onFile_of_error {path : String} {t : Trials} {m : Nat × Candidate} {s : σ} {f : Failure}
    (answer : (trial h o.config (o.text path) path t m s).1 = Except.error f) :
    o.onFile path m.2 = .error f := by
  rw [onFile, ← hv _ t.handle _ _ s]
  exact congrArg (Except.map (·.violations)) answer

/-- A trial that does not fail shows the violations in the file with the candidate. -/
theorem onFile_of_ok {path : String} {t : Trials} {m : Nat × Candidate} {s : σ} {v : Verification}
    (answer : (trial h o.config (o.text path) path t m s).1 = Except.ok v) :
    o.onFile path m.2 = .ok v.violations := by
  rw [onFile, ← hv _ t.handle _ _ s]
  exact congrArg (Except.map (·.violations)) answer

/-- In a file that parses every candidate is tried, and those are noted whose rule is reported. -/
theorem run_tryAll_of_parses {path : String} (cs : List (Nat × Candidate)) (t : Trials) (s : σ)
    (parses : o.parses (cs.map (·.2)) path = true) :
    ((tryAll o.config (o.text path) path cs t).run h s).1.fatal = t.fatal ∧
      ((tryAll o.config (o.text path) path cs t).run h s).1.disproven =
        t.disproven ++ (cs.filter fun m => o.reports path m.2).map (·.1) := by
  induction cs generalizing t s with
  | nil => exact ⟨rfl, (List.append_nil _).symm⟩
  | cons m rest ih =>
    rw [Oracle.parses, List.map_cons, List.all_cons, Bool.and_eq_true] at parses
    obtain ⟨hm, hrest⟩ := parses
    cases answer : (trial h o.config (o.text path) path t m s).1 with
    | error f =>
      have hreports : o.reports path m.2 = false := by
        rw [reports, onFile_of_error hv answer]
      rw [run_tryAll_of_error h _ _ _ rest answer, List.filter_cons_of_neg (by simp [hreports])]
      exact ih t _ hrest
    | ok v =>
      have hfile := onFile_of_ok hv answer
      rw [hfile] at hm
      have sound : v.isFatal = false := by
        rw [Verification.isFatal_eq]
        simpa using hm
      have hreports : 0 < v.count m.2.ruleId ↔ o.reports path m.2 = true := by
        rw [Verification.count_pos_iff, reports, hfile]
      rw [run_tryAll_of_ok h _ _ _ rest answer sound]
      obtain ⟨hfatal, hdisproven⟩ := ih (t.note m v)
        ((keepHandle t.handle v.handle).run h
          (trial h o.config (o.text path) path t m s).2).2 hrest
      refine ⟨hfatal, ?_⟩
      rw [hdisproven, Trials.note]
      by_cases hr : o.reports path m.2 = true
      · rw [if_pos (hreports.mpr hr), List.filter_cons, if_pos hr, List.map_cons,
          List.append_assoc, List.singleton_append]
      · rw [if_neg (fun hc => hr (hreports.mp hc)), List.filter_cons, if_neg hr]

/-- In a file that is broken, the first verification ends the trials, if there is one; so nothing
counts as disproven. -/
theorem run_tryAll_of_breaks {path : String} (cs : List (Nat × Candidate)) (t : Trials) (s : σ)
    (breaks : o.breaks (cs.map (·.2)) path = true) :
    ((tryAll o.config (o.text path) path cs t).run h s).1.fatal = true ∨
      ((tryAll o.config (o.text path) path cs t).run h s).1.disproven = t.disproven := by
  induction cs generalizing s with
  | nil => exact Or.inr rfl
  | cons m rest ih =>
    rw [Oracle.breaks, List.map_cons, List.all_cons, Bool.and_eq_true] at breaks
    obtain ⟨hm, hrest⟩ := breaks
    cases answer : (trial h o.config (o.text path) path t m s).1 with
    | error f =>
      rw [run_tryAll_of_error h _ _ _ rest answer]
      exact ih _ hrest
    | ok v =>
      rw [onFile_of_ok hv answer] at hm
      rw [run_tryAll_of_fatal h _ _ _ rest answer hm]
      exact Or.inl rfl

/-! ## The pool after a file -/

/-- **What a file takes out of a pool.**  Of candidates all of which or none of which show a file to
be broken, the file takes out those that it spoils, whichever of them are still live. -/
theorem entries_inspectText {path : String} {cs : List Candidate} {pool : Pool}
    (hcs : pool.candidates = cs)
    (uniform : o.parses cs path = true ∨ o.breaks cs path = true) (s : σ) :
    ((inspectText o.config (o.text path) path pool).run h s).1.2.entries =
      pool.entries.map fun m => (m.1, m.2 && !o.spoils cs path m.1) := by
  have hlive : ∀ c ∈ pool.live.map (·.2), c ∈ cs := by
    intro c hc
    obtain ⟨m, hm, rfl⟩ := List.mem_map.mp hc
    exact hcs ▸ Pool.mem_candidates_of_mem_live hm
  rw [run_inspectText, conclude]
  cases hp : o.parses cs path with
  | true =>
    have hparses : o.parses (pool.live.map (·.2)) path = true :=
      List.all_eq_true.mpr fun c hc => List.all_eq_true.mp hp c (hlive c hc)
    obtain ⟨hfatal, hdisproven⟩ := run_tryAll_of_parses hv pool.live {} s hparses
    rw [hfatal, hdisproven, if_neg Bool.false_ne_true]
    change (pool.evictAll ([] ++ _)).entries = _
    rw [List.nil_append, Pool.entries_evictAll_live]
    simp only [spoils, hp, Bool.true_and]
  | false =>
    have hbreaks : o.breaks (pool.live.map (·.2)) path = true :=
      List.all_eq_true.mpr fun c hc =>
        List.all_eq_true.mp (uniform.resolve_left (by simp [hp])) c (hlive c hc)
    have hkeep : pool.entries =
        pool.entries.map fun m => (m.1, m.2 && !o.spoils cs path m.1) := by
      simp [spoils, hp]
    rcases run_tryAll_of_breaks hv pool.live {} s hbreaks with hfatal | hdisproven
    · rw [if_pos hfatal]
      exact hkeep
    · split
      · exact hkeep
      · rw [hdisproven]
        exact hkeep

/-- A file that was read is reported under its path, and takes out of the pool what it spoils. -/
theorem run_finishFile_ok {path : String} {cs : List Candidate} (pool : Pool)
    (hcs : pool.candidates = cs)
    (uniform : o.parses cs path = true ∨ o.breaks cs path = true) (s : σ) :
    ∃ report pool', ((finishFile o.config path (.ok (o.text path)) pool).run h s).1 =
        (.ok report, pool') ∧ report.path = path ∧
      pool'.entries = pool.entries.map fun m => (m.1, m.2 && !o.spoils cs path m.1) := by
  have hpath : ((inspectText o.config (o.text path) path pool).run h s).1.1.path = path := by
    rw [run_inspectText, conclude]
    split <;> rfl
  refine ⟨((inspectText o.config (o.text path) path pool).run h s).1.1,
    ((inspectText o.config (o.text path) path pool).run h s).1.2, ?_, hpath,
    entries_inspectText hv hcs uniform s⟩
  rw [finishFile, Dialogue.run_bind]
  rfl

omit hv

/-! ## The floor of a run -/

end Oracle

/-- The files that were read and are done. -/
def Floor.finished (f : Floor) : List String := (Inspection.reports f.outcomes).map (·.path)

/-- The files in flight and the files to come. -/
def Floor.ahead (f : Floor) : List String := f.queue.map Task.path ++ f.waiting

theorem Floor.finished_finish (f : Floor) (report : FileReport) (pool : Pool) :
    (f.finish (.ok report, pool)).finished = f.finished ++ [report.path] := by
  simp [finished, finish, reports, List.filterMap_append]

theorem failures_finish (f : Floor) (report : FileReport) (pool : Pool) :
    failures (f.finish (.ok report, pool)).outcomes = failures f.outcomes := by
  simp [Floor.finish, failures, List.filterMap_append]

/-- Joining the queue does not change which files are ahead. -/
@[simp] theorem Floor.ahead_fill (limit : Nat) (f : Floor) : (f.fill limit).ahead = f.ahead := by
  rw [ahead, fill, List.map_append, List.map_map, List.append_assoc]
  have hpath : Task.path ∘ Task.fresh = id := rfl
  rw [hpath, List.map_id, List.take_append_drop, ahead]

/-- A file that is put back is ahead again. -/
theorem Floor.ahead_withQueue_perm (f : Floor) (t : Task) :
    (f.withQueue (f.queue ++ [t])).ahead.Perm (t.path :: f.ahead) := by
  have hahead : (f.withQueue (f.queue ++ [t])).ahead =
      f.queue.map Task.path ++ t.path :: f.waiting := by
    rw [ahead, withQueue, List.map_append, List.append_assoc]
    rfl
  rw [hahead]
  exact List.perm_middle

namespace Oracle

/-- What a run comes to while it is under way: no file is lost, every reading comes to the text of
its file, no reading has failed, and those candidates are live that no finished file spoils. -/
structure Tallies (o : Oracle) (h : Handler Linter σ) (cs : List Candidate) (files : List String)
    (f : Floor) : Prop where
  files_perm : (f.finished ++ f.ahead).Perm files
  outcome_eq : ∀ t ∈ f.queue, ∀ s, t.outcome h s = .ok (o.text t.path)
  failures_eq : failures f.outcomes = []
  entries_eq : f.pool.entries = cs.map fun c => (c, o.spares cs f.finished c)

variable {o : Oracle} {h : Handler Linter σ} {cs : List Candidate} {files : List String}

theorem Tallies.candidates_eq {f : Floor} (hf : o.Tallies h cs files f) :
    f.pool.candidates = cs := by
  rw [Pool.candidates, hf.entries_eq, List.map_map]
  exact List.map_id cs

theorem tallies_start (cs : List Candidate) (files : List String) :
    o.Tallies h cs files ⟨[], files, Pool.ofList cs, []⟩ where
  files_perm := List.Perm.refl _
  outcome_eq := by simp
  failures_eq := rfl
  entries_eq := rfl

/-- Joining the queue keeps the tally, as the files that join can be read. -/
theorem Tallies.fill (htext : ∀ path ∈ files, ∀ s,
      ((h (.read path) s).1 : Reading).outcome = .ok (o.text path))
    (limit : Nat) {f : Floor} (hf : o.Tallies h cs files f) :
    o.Tallies h cs files (f.fill limit) where
  files_perm := by
    rw [Floor.ahead_fill]
    exact hf.files_perm
  outcome_eq := by
    intro t ht s
    rcases List.mem_append.mp ht with ht | ht
    · exact hf.outcome_eq t ht s
    · obtain ⟨path, hpath, rfl⟩ := List.mem_map.mp ht
      refine htext path (hf.files_perm.mem_iff.mp ?_) s
      exact List.mem_append_right _ (List.mem_append_right _ (List.mem_of_mem_take hpath))
  failures_eq := hf.failures_eq
  entries_eq := hf.entries_eq

/-- A look keeps the tally: a file that is put back is still ahead, and one that is finished takes
out of the pool what it spoils. -/
theorem Tallies.look (hv : o.Judges h) (uniform : o.IsUniform cs files) {f : Floor} {t : Task}
    {queue : List Task} (hq : f.queue = t :: queue) (hf : o.Tallies h cs files f) (s : σ) :
    o.Tallies h cs files (((f.withQueue queue).look o.config t).run h s).1 := by
  have hperm : (f.finished ++ (t.path :: ((f.withQueue queue).ahead))).Perm files := by
    have hahead : f.ahead = t.path :: (f.withQueue queue).ahead := by
      rw [Floor.ahead, hq]
      rfl
    exact hahead ▸ hf.files_perm
  have hrest : ∀ u ∈ queue, ∀ s, u.outcome h s = .ok (o.text u.path) := fun u hu =>
    hf.outcome_eq u (hq ▸ List.mem_cons_of_mem t hu)
  have houtcome : t.outcome h s = .ok (o.text t.path) :=
    hf.outcome_eq t (hq ▸ List.mem_cons_self) s
  have hmem : t.path ∈ files :=
    hperm.mem_iff.mp (List.mem_append_right _ List.mem_cons_self)
  rcases run_look h o.config (f.withQueue queue) t s with ⟨s', hlook⟩ | ⟨pending, hlook⟩
  · obtain ⟨report, pool, hrun, hpath, hentries⟩ :=
      run_finishFile_ok hv (f.withQueue queue).pool hf.candidates_eq
        (uniform t.path hmem) s'
    have hfinished : ((f.withQueue queue).finish (.ok report, pool)).finished =
        f.finished ++ [t.path] := hpath ▸ Floor.finished_finish _ report pool
    rw [hlook, houtcome, hrun]
    refine ⟨?_, hrest, ?_, ?_⟩
    · rw [hfinished, List.append_assoc]
      exact hperm
    · rw [failures_finish]
      exact hf.failures_eq
    · rw [hfinished]
      change pool.entries = _
      rw [hentries]
      change f.pool.entries.map _ = _
      rw [hf.entries_eq, List.map_map]
      refine List.map_congr_left fun c _ => ?_
      simp [spares, List.all_append]
  · rw [hlook]
    refine ⟨?_, fun u hu s => ?_, hf.failures_eq, hf.entries_eq⟩
    · exact ((Floor.ahead_withQueue_perm (f.withQueue queue) _).append_left _).trans hperm
    · rcases List.mem_append.mp hu with hu | hu
      · exact hrest u hu s
      · rw [List.mem_singleton.mp hu]
        exact houtcome

/-! ## The inspection -/

theorem spares_of_perm (cs : List Candidate) {files files' : List String}
    (hperm : files'.Perm files) (c : Candidate) : o.spares cs files' c = o.spares cs files c :=
  hperm.all_eq

/-- After a run, those candidates are live that no file spoils, and no reading has failed. -/
theorem live_runFiles {s : σ} {base : Config} {patterns : List String}
    (hs : o.Speaks h s base patterns files) (uniform : o.IsUniform cs files) {limit : Nat}
    (hl : 0 < limit) (s' : σ) :
    ((runFiles limit o.config files (Pool.ofList cs)).run h s').1.pool.live.map (·.2) =
        cs.filter (o.spares cs files) ∧
      failures ((runFiles limit o.config files (Pool.ofList cs)).run h s').1.outcomes = [] := by
  have hrun : ((runFiles limit o.config files (Pool.ofList cs)).run h s').1 =
      ((runAll limit o.config ⟨[], files, Pool.ofList cs, []⟩).run h
        (h (.started files.length) s').2).1 := by
    rw [runFiles, run_ask, Dialogue.run_bind, run_ask]
    rfl
  obtain ⟨htally, hqueue, hwaiting⟩ := runAll_invariant hl (P := fun _ f => o.Tallies h cs files f)
    (fun _ _ hf => hf.fill hs.text limit)
    (fun _ _ _ _ s hq hf => hf.look hs.verdict uniform hq s)
    ⟨[], files, Pool.ofList cs, []⟩ [] (h (.started files.length) s').2
    (tallies_start cs files)
  rw [hrun]
  generalize ((runAll limit o.config ⟨[], files, Pool.ofList cs, []⟩).run h
    (h (.started files.length) s').2).1 = f at htally hqueue hwaiting ⊢
  refine ⟨?_, htally.failures_eq⟩
  have hfinished : f.finished.Perm files := by
    have hperm := htally.files_perm
    rwa [Floor.ahead, hqueue, hwaiting, List.map_nil, List.append_nil, List.append_nil] at hperm
  rw [Pool.map_snd_live, htally.entries_eq, List.filter_map, List.map_map]
  simp only [spares_of_perm cs hfinished]
  exact List.map_id _

/-- A survey comes to the floor of the run of all files. -/
theorem run_survey {s : σ} (settings : Settings) {base : Config} {patterns : List String}
    (hs : o.Speaks h s base patterns files) :
    ∃ s', ((survey settings base patterns).run h s).1 = .ok ⟨o.catalog, o.config,
      ((runFiles (max settings.concurrency 1) o.config files
        (Pool.ofList (Options.candidates o.catalog settings.limit))).run h s').1⟩ := by
  refine ⟨(h (.listFiles patterns) (h (.effectiveConfig base) (h .rules s).2).2).2, ?_⟩
  rw [survey, run_ask, hs.catalog]
  simp only [run_ask, hs.config, hs.listing]
  rw [Dialogue.run_bind]
  rfl

/-- The rules section that the survivors amount to. -/
def reduction (o : Oracle) (limit : Nat) (files : List String) : Reduction :=
  Reduction.ofPool (Pool.ofList (o.survivors limit files)) o.config o.catalog

/-- An inspection in which no reading fails reduces what the survey leaves. -/
theorem run_inspectFiles {s : σ} {settings : Settings} {base : Config} {patterns : List String}
    {v : Survey} (hv : ((survey settings base patterns).run h s).1 = .ok v)
    (hread : failures v.floor.outcomes = []) :
    ((inspectFiles settings base patterns).run h s).1 =
      .ok (Outcome.ofPool base v.config v.catalog patterns v.floor) := by
  rw [inspectFiles, Dialogue.run_bind, hv]
  simp only [hread, warnAll]
  rfl

/-- What an inspection comes to. -/
theorem exists_run_inspectFiles {s : σ} {settings : Settings} {base : Config}
    {patterns : List String} (hs : o.Speaks h s base patterns files)
    (uniform : o.IsUniform (Options.candidates o.catalog settings.limit) files) :
    ∃ v r, ((survey settings base patterns).run h s).1 = .ok v ∧
      v.floor.pool.live.map (·.2) = o.survivors settings.limit files ∧
      ((inspectFiles settings base patterns).run h s).1 = .ok r ∧
      r.config = base.withRules (o.reduction settings.limit files).rules ∧
      r.enabled = (o.reduction settings.limit files).enabled ∧
      r.total = (o.reduction settings.limit files).enabled +
        (o.reduction settings.limit files).disabled := by
  obtain ⟨s', hv⟩ := run_survey settings hs
  have hroom : 0 < max settings.concurrency 1 := Nat.le_max_right _ _
  obtain ⟨hlive, hread⟩ := live_runFiles hs uniform hroom s'
  have hreduction : Reduction.ofPool ((runFiles (max settings.concurrency 1) o.config files
      (Pool.ofList (Options.candidates o.catalog settings.limit))).run h s').1.pool o.config
      o.catalog = o.reduction settings.limit files := by
    rw [reduction, Reduction.ofPool, Reduction.ofPool, hlive, Pool.map_snd_live_ofList, survivors]
  refine ⟨_, _, hv, hlive, run_inspectFiles hv hread, ?_, ?_, ?_⟩ <;>
    rw [Outcome.ofPool, hreduction]

theorem reduction_of_perm (limit : Nat) {files' : List String} (hperm : files'.Perm files) :
    o.reduction limit files' = o.reduction limit files := by
  rw [reduction, reduction, survivors, survivors]
  simp only [funext (spares_of_perm (o := o) (Options.candidates o.catalog limit) hperm)]

end Oracle

/-- **What survives does not depend on the schedule.**  Take a linter that says what an oracle says,
and files each of which is broken for all candidates or for none.  However many files are in flight
at a time, however long each reading takes and whatever handles come back, those candidates survive
whose rule is reported in no file that parses; and the inspection comes to the base with the rules
that they reduce to.  Hence any other such linter, asked about the same files in another order,
leads to the same configuration and the same counts. -/
theorem survivors_inspectFiles (o : Oracle) {h : Handler Linter σ} {s : σ} (settings : Settings)
    {base : Config} {patterns files : List String} (hs : o.Speaks h s base patterns files)
    (uniform : o.IsUniform (Options.candidates o.catalog settings.limit) files) :
    ∃ v r, ((survey settings base patterns).run h s).1 = .ok v ∧
      v.floor.pool.live.map (·.2) = o.survivors settings.limit files ∧
      ((inspectFiles settings base patterns).run h s).1 = .ok r ∧
      r.config = base.withRules (o.reduction settings.limit files).rules ∧
      r.enabled = (o.reduction settings.limit files).enabled ∧
      r.total = (o.reduction settings.limit files).enabled +
        (o.reduction settings.limit files).disabled ∧
      ∀ {σ' : Type} {h' : Handler Linter σ'} {s' : σ'} (settings' : Settings)
        {files' : List String}, o.Speaks h' s' base patterns files' → files'.Perm files →
        settings'.limit = settings.limit →
        ∃ r', ((inspectFiles settings' base patterns).run h' s').1 = .ok r' ∧
          r'.config = r.config ∧ r'.enabled = r.enabled ∧ r'.total = r.total := by
  obtain ⟨v, r, hv, hlive, hr, hconfig, henabled, htotal⟩ :=
    Oracle.exists_run_inspectFiles hs uniform
  refine ⟨v, r, hv, hlive, hr, hconfig, henabled, htotal, ?_⟩
  intro σ' h' s' settings' files' hs' hperm hlimit
  have uniform' : o.IsUniform (Options.candidates o.catalog settings'.limit) files' := by
    rw [hlimit]
    exact fun path hpath => uniform path (hperm.mem_iff.mp hpath)
  obtain ⟨v', r', hv', hlive', hr', hconfig', henabled', htotal'⟩ :=
    Oracle.exists_run_inspectFiles hs' uniform'
  rw [hlimit, Oracle.reduction_of_perm settings.limit hperm] at hconfig' henabled' htotal'
  exact ⟨r', hr', hconfig'.trans hconfig.symm, henabled'.trans henabled.symm,
    htotal'.trans htotal.symm⟩

/-! ## A linter for every oracle -/

/-- The linter that says what an oracle says, takes a given time for each reading, and counts the
handles that it hands out. -/
def Oracle.linter (o : Oracle) (files : List String) (pending : String → Nat) : Handler Linter Nat
  | .rules, n => (.ok o.catalog, n)
  | .effectiveConfig _, n => (.ok o.config, n)
  | .listFiles _, n => (.ok files, n)
  | .read path, n => (⟨pending path, .ok (o.text path)⟩, n)
  | .verify text _ config path, n => ((o.verdict text config path).map (⟨·, some n⟩), n + 1)
  | .release _, n | .started _, n | .ticked, n | .finished, n | .warn _, n => ((), n)

theorem Oracle.speaks_linter (o : Oracle) (files : List String) (pending : String → Nat) (n : Nat)
    (base : Config) (patterns : List String) :
    o.Speaks (o.linter files pending) n base patterns files where
  catalog := rfl
  config := rfl
  listing := rfl
  text := fun _ _ _ => rfl
  verdict := by
    intro text handle config path n
    have hanswer : (o.linter files pending (.verify text handle config path) n).1 =
        (o.verdict text config path).map (⟨·, some n⟩ : _ → Verification) := rfl
    rw [hanswer]
    cases o.verdict text config path <;> rfl

/-- Two rules and three kinds of text, each text being its own path: one that is broken, one in
which `semi` is reported when it is turned on, and one in which nothing is reported. -/
def sampleOracle : Oracle where
  catalog := [{ id := "semi" }, { id := "quotes" }]
  config := .empty
  text := fun path => path
  verdict := fun text config _ =>
    if text = "broken" then .ok [{ ruleId := some "quotes", fatal := true }]
    else if text = "a" then
      .ok (((config.rules?.getD []).filter (·.1 == "semi")).map fun m => { ruleId := some m.1 })
    else .ok []

/-- A file that reports `semi` removes it and the broken file removes nothing, in either order. -/
theorem survivors_inspectFiles_sampleOracle :
    sampleOracle.Speaks (sampleOracle.linter ["a", "broken", "b"] String.length) 0 .empty ["*"]
        ["a", "broken", "b"] ∧
      sampleOracle.IsUniform (Options.candidates sampleOracle.catalog 255) ["a", "broken", "b"] ∧
      ∃ v r r', ((survey { concurrency := 0 } .empty ["*"]).run
          (sampleOracle.linter ["a", "broken", "b"] String.length) 0).1 = .ok v ∧
        v.floor.pool.live.map (·.2) = [⟨"quotes", .str "error"⟩] ∧
        ((inspectFiles { concurrency := 0 } .empty ["*"]).run
          (sampleOracle.linter ["a", "broken", "b"] String.length) 0).1 = .ok r ∧
        ((inspectFiles { concurrency := 2 } .empty ["*"]).run
          (sampleOracle.linter ["b", "a", "broken"] fun _ => 7) 0).1 = .ok r' ∧
        r'.config = r.config := by
  have hcandidates : Options.candidates sampleOracle.catalog 255 =
      [⟨"semi", .str "error"⟩, ⟨"quotes", .str "error"⟩] := by
    cbv
  have hs := sampleOracle.speaks_linter ["a", "broken", "b"] String.length 0 .empty ["*"]
  have huniform : sampleOracle.IsUniform (Options.candidates sampleOracle.catalog 255)
      ["a", "broken", "b"] := by
    rw [hcandidates]
    unfold Oracle.IsUniform
    decide
  obtain ⟨v, r, hv, hlive, hr, -, -, -, hother⟩ :=
    survivors_inspectFiles sampleOracle { concurrency := 0 } hs huniform
  obtain ⟨r', hr', hconfig, -⟩ := hother { concurrency := 2 }
    (sampleOracle.speaks_linter ["b", "a", "broken"] (fun _ => 7) 0 .empty ["*"]) (by decide) rfl
  refine ⟨hs, huniform, v, r, r', hv, hlive.trans ?_, hr, hr', hconfig⟩
  have hsurvivors : sampleOracle.survivors 255 ["a", "broken", "b"] =
      [⟨"quotes", .str "error"⟩] := by
    rw [Oracle.survivors, hcandidates]
    rfl
  exact hsurvivors

end LintSetup.Inspection
