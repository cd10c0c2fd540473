import LintSetup.Proofs.Candidate.Eviction
import LintSetup.Proofs.Inspection.Course
import LintSetup.Proofs.Inspection.Verdicts
import Mathlib.Algebra.Ring.Nat
import Mathlib.Data.List.Permutation

/-!
# The books of evictions

The files of an inspection share one pool, and which file takes a candidate out of it depends on the
order in which they are finished.  For a linter that answers as it likes, with a text that is broken
for one candidate and not for the next, not even the survivors can be told in advance.  But they are
accounted for.

* `exists_disproven_tryAll` --- the trials of a text in numbers.
* `Visit` --- a file with the pool that it met, the report on it and the pool that it left, and
  `Visit.Balances`, its books.
* `Visits` --- files that are inspected one after another.  Their books add up
  (`Visits.sum_evicted`), and what is gone in the end was taken out by one of them
  (`Visits.existsUnique_takesOut`).
* `Reaches.contains_of_contains` --- at no moment of a run is a candidate live again.

The files of an inspection that comes to a result are such visits (`evictions_inspectFiles`).
-/

namespace LintSetup.Inspection

variable {σ : Type}

/-! ## The trials of a text in numbers -/

/-- Trials disprove some of the candidates, each of them at most once.  Only verified candidates are
disproven, and no more are verified than tried. -/
theorem exists_disproven_tryAll (h : Handler Linter σ) (base : Config) (text path : String)
    (cs : List (Nat × Candidate)) (t : Trials) (s : σ) :
    ∃ ids, ids.Sublist (cs.map (·.1)) ∧
      ((tryAll base text path cs t).run h s).1.disproven = t.disproven ++ ids ∧
      t.checked + ids.length ≤ ((tryAll base text path cs t).run h s).1.checked ∧
      ((tryAll base text path cs t).run h s).1.checked ≤ t.checked + cs.length := by
  obtain ⟨ms, htries, -, hrecords⟩ := exists_tries_tryAll h base text path cs t s
  have hids : ms.map Tried.id <+: cs.map (·.1) := by
    rw [Tried.map_id_eq]
    exact htries.isPrefix.map (·.1)
  have hlength : ms.length ≤ cs.length := by
    simpa only [List.length_map] using hids.length_le
  refine ⟨(ms.filter fun m => m.reports && !m.isFatal).map Tried.id,
    (List.filter_sublist.map _).trans hids.sublist, hrecords.disproven, ?_, ?_⟩
  · rw [hrecords.checked, List.length_map, ← List.countP_eq_length_filter]
    refine Nat.add_le_add_left (List.countP_mono_left fun m _ hm => ?_) _
    exact m.succeeded_of_reports (Bool.and_eq_true_iff.mp hm).1
  · rw [hrecords.checked]
    exact Nat.add_le_add_left (Nat.le_trans List.countP_le_length hlength) _

/-! ## A file -/

/-- A file of a run: the pool that it met, what was reported of it, and the pool that it left. -/
structure Visit where
  met : Pool
  report : FileReport
  left : Pool

namespace Visit

/-- A file takes out a candidate that was live when it was inspected and is not any more. -/
def TakesOut (v : Visit) (id : Nat) : Prop := v.met.contains id = true ∧ v.left.contains id = false

/-- The books of a file are in order. -/
structure Balances (v : Visit) : Prop where
  /-- The report counts the candidates that the file takes out. -/
  counted : ∃ ids : List Nat, ids.Nodup ∧ ids.length = v.report.evicted ∧
    ∀ id, id ∈ ids ↔ v.TakesOut id
  /-- It makes no candidate live again. -/
  kept : ∀ id, v.left.contains id = true → v.met.contains id = true
  total : v.report.evicted + v.left.live.length = v.met.live.length
  /-- A file that does not parse takes nothing out. -/
  fatal : v.report.fatal = true → v.report.evicted = 0
  evicted_le : v.report.evicted ≤ v.report.checked
  checked_le : v.report.checked ≤ v.met.live.length

/-- The inspection of a text against a pool. -/
def ofText (h : Handler Linter σ) (base : Config) (text path : String) (pool : Pool) (s : σ) :
    Visit :=
  let run := (inspectText base text path pool).run h s
  ⟨pool, run.1.1, run.1.2⟩

end Visit

/-- Trials that disprove only live candidates, each of them once, lead to books that balance. -/
theorem balances_conclude (path : String) {pool : Pool} {t : Trials}
    (hsub : t.disproven.Sublist (pool.live.map (·.1))) (hle : t.disproven.length ≤ t.checked)
    (hle' : t.checked ≤ pool.live.length) :
    Visit.Balances ⟨pool, (conclude path pool t).1, (conclude path pool t).2⟩ := by
  have hnodup : t.disproven.Nodup := by
    refine List.Nodup.sublist hsub ?_
    rw [List.Nodup, List.pairwise_map]
    exact (Pool.pairwise_live pool).imp fun hlt => Nat.ne_of_lt hlt
  have hlive : ∀ id ∈ t.disproven, pool.contains id = true := fun id hid =>
    Pool.mem_map_fst_live.mp (hsub.subset hid)
  rw [conclude]
  split
  · exact
      { counted := ⟨[], List.nodup_nil, rfl, fun id => by simp [Visit.TakesOut]⟩
        kept := fun _ h => h
        total := Nat.zero_add _
        fatal := fun _ => rfl
        evicted_le := Nat.zero_le _
        checked_le := hle' }
  · have hall : t.disproven.filter pool.contains = t.disproven :=
      List.filter_eq_self.mpr hlive
    rw [hall]
    refine ⟨⟨t.disproven, hnodup, rfl, fun id => ?_⟩, fun id h => ?_, ?_, fun h => ?_, hle, hle'⟩
    · rw [Visit.TakesOut, Pool.contains_evictAll, List.contains_eq_mem]
      constructor
      · intro hid
        simp [hlive id hid, hid]
      · rintro ⟨hmet, hleft⟩
        simpa [hmet] using hleft
    · rw [Pool.contains_evictAll, Bool.and_eq_true] at h
      exact h.1
    · rw [Nat.add_comm]
      exact Pool.length_live_evictAll hnodup hlive
    · exact absurd h Bool.false_ne_true

/-- **The books of a file balance**, whatever the linter says about its text. -/
theorem balances_ofText (h : Handler Linter σ) (base : Config) (text path : String) (pool : Pool)
    (s : σ) : (Visit.ofText h base text path pool s).Balances := by
  obtain ⟨ids, hsub, hdisproven, hle, hle'⟩ :=
    exists_disproven_tryAll h base text path pool.live {} s
  rw [Visit.ofText, run_inspectText]
  generalize ((tryAll base text path pool.live {}).run h s).1 = t at hdisproven hle hle' ⊢
  have hids : t.disproven = ids := hdisproven
  have hnone : ({} : Trials).checked = 0 := rfl
  refine balances_conclude path (hids ▸ hsub) ?_ ?_
  · rw [hids]
    omega
  · omega

/-! ## The files of a run -/

/-- Files that are inspected one after another: each meets the pool that the one before it left. -/
inductive Visits (h : Handler Linter σ) (base : Config) (pool : Pool) :
    List Visit → List (Exchange Linter) → Pool → Prop
  | nil : Visits h base pool [] [] pool
  | snoc {visits : List Visit} {es : List (Exchange Linter)} {left : Pool}
    (hvisits : Visits h base pool visits es left) (path text : String) (s : σ) :
    Visits h base pool (visits ++ [Visit.ofText h base text path left s])
      (es ++ (finishFile base path (.ok text) left).transcript h s)
      (Visit.ofText h base text path left s).left

/-- What finishing a file that was read comes to. -/
theorem run_finishFile_text (h : Handler Linter σ) (base : Config) (path text : String)
    (pool : Pool) (s : σ) :
    ((finishFile base path (.ok text) pool).run h s).1 =
      (.ok (Visit.ofText h base text path pool s).report,
        (Visit.ofText h base text path pool s).left) := by
  rw [finishFile, Dialogue.run_bind]
  rfl

/-- Where no reading failed, the files that were finished are visits. -/
theorem Finishes.exists_visits {h : Handler Linter σ} {base : Config} {pool left : Pool}
    {done : List Read} {es : List (Exchange Linter)}
    {outcomes : List (Except ReadFailure FileReport)}
    (hd : Finishes h base pool done es outcomes left) (hread : failures outcomes = []) :
    ∃ visits, Visits h base pool visits es left ∧
      reports outcomes = visits.map (·.report) := by
  induction hd with
  | nil => exact ⟨[], .nil, rfl⟩
  | @snoc done es outcomes left _ path outcome s ih =>
    rw [failures, List.filterMap_append, List.append_eq_nil_iff] at hread
    obtain ⟨visits, hvisits, hreports⟩ := ih hread.1
    cases outcome with
    | error e =>
      have hfailed : ((finishFile base path (.error e) left).run h s).1.1 = .error ⟨path, e⟩ := rfl
      rw [hfailed] at hread
      simp at hread
    | ok text =>
      rw [run_finishFile_text]
      refine ⟨visits ++ [Visit.ofText h base text path left s], hvisits.snoc path text s, ?_⟩
      rw [List.map_append, ← hreports, reports, reports, List.filterMap_append]
      rfl

namespace Visits

variable {h : Handler Linter σ} {base : Config} {pool left : Pool} {visits : List Visit}
  {es : List (Exchange Linter)}

theorem balances (hv : Visits h base pool visits es left) : ∀ v ∈ visits, v.Balances := by
  induction hv with
  | nil => simp
  | snoc _ path text s ih =>
    rw [List.forall_mem_append, List.forall_mem_singleton]
    exact ⟨ih, balances_ofText h base text path _ s⟩

/-- The counts of the files and the candidates that are live in the end come to the candidates that
were live. -/
theorem sum_evicted (hv : Visits h base pool visits es left) :
    (visits.map (·.report.evicted)).sum + left.live.length = pool.live.length := by
  induction hv with
  | nil => exact Nat.zero_add _
  | @snoc visits es left _ path text s ih =>
    have htotal := (balances_ofText h base text path left s).total
    have hmet : (Visit.ofText h base text path left s).met = left := rfl
    rw [List.map_append, List.sum_append, List.map_singleton, List.sum_singleton]
    rw [hmet] at htotal
    omega

/-- What is live after the files was taken out by none of them. -/
theorem not_takesOut (hv : Visits h base pool visits es left) {id : Nat}
    (hid : left.contains id = true) : ∀ v ∈ visits, ¬ v.TakesOut id := by
  induction hv with
  | nil => simp
  | @snoc visits es left _ path text s ih =>
    rw [List.forall_mem_append, List.forall_mem_singleton]
    refine ⟨ih ((balances_ofText h base text path left s).kept id hid), ?_⟩
    rintro ⟨-, hgone⟩
    rw [hgone] at hid
    exact Bool.false_ne_true hid

/-- A candidate that is gone was taken out by exactly one file. -/
theorem existsUnique_takesOut (hv : Visits h base pool visits es left) {id : Nat}
    (hlive : pool.contains id = true) (hgone : left.contains id = false) :
    ∃! i : Nat, ∃ v : Visit, visits[i]? = some v ∧ v.TakesOut id := by
  induction hv with
  | nil => exact absurd (hlive.symm.trans hgone) (by simp)
  | @snoc visits es left hvisits path text s ih =>
    -- it is the last file that took the candidate out, or one of those before it
    cases hmet : left.contains id with
    | true =>
      refine ⟨visits.length, ⟨_, List.getElem?_concat_length, hmet, hgone⟩, ?_⟩
      rintro i ⟨w, hw, htakes⟩
      rw [List.getElem?_append] at hw
      split at hw
      · exact absurd htakes (hvisits.not_takesOut hmet w (List.mem_of_getElem? hw))
      · have hi := (List.getElem?_eq_some_iff.mp hw).1
        rw [List.length_singleton] at hi
        omega
    | false =>
      obtain ⟨i, ⟨w, hw, htakes⟩, hunique⟩ := ih hmet
      have hi := (List.getElem?_eq_some_iff.mp hw).1
      refine ⟨i, ⟨w, (List.getElem?_append_left hi).trans hw, htakes⟩, ?_⟩
      rintro j ⟨w', hw', htakes'⟩
      rw [List.getElem?_append] at hw'
      split at hw'
      · exact hunique j ⟨w', hw', htakes'⟩
      · have hlast := List.mem_singleton.mp (List.mem_of_getElem? hw')
        have hmet' : left.contains id = true := by
          rw [hlast] at htakes'
          exact htakes'.1
        exact absurd (hmet'.symm.trans hmet) (by simp)

end Visits

/-! ## The moments of a run -/

/-- Finishing a file makes no candidate live again. -/
theorem contains_finishFile (h : Handler Linter σ) (base : Config) (path : String)
    (outcome : Except IoError String) (pool : Pool) (s : σ) {id : Nat}
    (hid : ((finishFile base path outcome pool).run h s).1.2.contains id = true) :
    pool.contains id = true := by
  cases outcome with
  | error e => exact hid
  | ok text =>
    rw [run_finishFile_text] at hid
    exact (balances_ofText h base text path pool s).kept id hid

/-- What is live at a moment of a run was live at every moment before it. -/
theorem Reaches.contains_of_contains {h : Handler Linter σ} {limit : Nat} {base : Config}
    {f g : Floor} {s s' : σ} {es : List (Exchange Linter)}
    (hg : Reaches h limit base f s es g s') {id : Nat} (hid : g.pool.contains id = true) :
    f.pool.contains id = true := by
  induction hg with
  | start => exact hid
  | @look _ g s' t queue _ hq ih =>
    refine ih ?_
    rcases run_look h base ((g.fill limit).withQueue queue) t s' with ⟨s₁, hrun⟩ | ⟨pending, hrun⟩
    · rw [hrun] at hid
      exact contains_finishFile h base _ _ g.pool s₁ hid
    · rw [hrun] at hid
      exact hid

/-! ## The inspection -/

/-- A survey that comes to an end has gone through all files. -/
theorem exists_runs_of_survey {h : Handler Linter σ} {s : σ} {settings : Settings} {base : Config}
    {patterns : List String} {v : Survey}
    (hv : ((survey settings base patterns).run h s).1 = .ok v) :
    ∃ files s₀ during done, Runs h (max settings.concurrency 1) v.config
      (Pool.ofList (Options.candidates v.catalog settings.limit)) files s₀ during done v.floor := by
  revert hv
  rw [survey, run_ask]
  rcases h .rules s with ⟨answer, s₁⟩
  rcases (answer : Except Failure (List Rule)) with f | catalog
  · intro hv
    cases hv
  dsimp only
  rw [run_ask]
  rcases h (.effectiveConfig base) s₁ with ⟨answer, s₂⟩
  rcases (answer : Except Failure Config) with f | config
  · intro hv
    cases hv
  dsimp only
  rw [run_ask]
  rcases h (.listFiles patterns) s₂ with ⟨answer, s₃⟩
  rcases (answer : Except Failure (List String)) with f | files
  · intro hv
    cases hv
  dsimp only
  rw [Dialogue.run_bind, run_runFiles]
  intro hv
  obtain rfl := Except.ok.inj hv
  obtain ⟨done, hruns⟩ := exists_runs_runAll h (Nat.le_max_right settings.concurrency 1) config
    (Pool.ofList (Options.candidates catalog settings.limit)) files (h (.started files.length) s₃).2
  exact ⟨files, _, _, done, hruns⟩

/-- An inspection that comes to a result rests on a survey in which every file could be read. -/
theorem exists_survey_of_inspectFiles {h : Handler Linter σ} {s : σ} {settings : Settings}
    {base : Config} {patterns : List String} {r : Outcome}
    (hr : ((inspectFiles settings base patterns).run h s).1 = .ok r) :
    ∃ v, ((survey settings base patterns).run h s).1 = .ok v ∧
      failures v.floor.outcomes = [] ∧
      r = Outcome.ofPool base v.config v.catalog patterns v.floor := by
  rw [inspectFiles, Dialogue.run_bind] at hr
  rcases hv : ((survey settings base patterns).run h s).1 with e | v
  · rw [hv] at hr
    cases hr
  · rw [hv] at hr
    dsimp only at hr
    rw [Dialogue.run_bind] at hr
    cases hfailed : failures v.floor.outcomes with
    | nil =>
      rw [hfailed] at hr
      exact ⟨v, rfl, hfailed, (Except.ok.inj hr).symm⟩
    | cons f rest =>
      rw [hfailed] at hr
      cases hr

/-- **The books of an inspection.**  Take any linter, whatever it answers and whatever state it keeps,
and an inspection that comes to a result.  Its reports are those of visits, one for each file in the
order in which they were finished, and the books of each are in order.  A candidate that did not
survive was taken out by exactly one of the files; from one moment of the run to a later one no
candidate becomes live again; and the evictions that are reported and the survivors come to all
candidates. -/
theorem evictions_inspectFiles (h : Handler Linter σ) (s : σ) (settings : Settings) (base : Config)
    (patterns : List String) {r : Outcome}
    (hr : ((inspectFiles settings base patterns).run h s).1 = .ok r) :
    ∃ v files s₀ during done visits,
      ((survey settings base patterns).run h s).1 = .ok v ∧
      let limit := max settings.concurrency 1
      let cs := Options.candidates v.catalog settings.limit
      Runs h limit v.config (Pool.ofList cs) files s₀ during done v.floor ∧
      Visits h v.config (Pool.ofList cs) visits (besidesReadings during) v.floor.pool ∧
      r.files = visits.map (·.report) ∧
      (∀ w ∈ visits, w.Balances) ∧
      (∀ id < cs.length, v.floor.pool.contains id = false →
        ∃! i : Nat, ∃ w : Visit, visits[i]? = some w ∧ w.TakesOut id) ∧
      (∀ {es es' : List (Exchange Linter)} {f g : Floor} {s₁ s₂ : σ},
        Reaches h limit v.config ⟨[], files, Pool.ofList cs, []⟩ s₀ es f s₁ →
          Reaches h limit v.config f s₁ es' g s₂ →
            ∀ id, g.pool.contains id = true → f.pool.contains id = true) ∧
      (r.files.map (·.evicted)).sum + v.floor.pool.live.length = cs.length := by
  obtain ⟨v, hv, hread, rfl⟩ := exists_survey_of_inspectFiles hr
  obtain ⟨files, s₀, during, done, hruns⟩ := exists_runs_of_survey hv
  obtain ⟨visits, hvisits, hreports⟩ := hruns.finishes.exists_visits hread
  have hfiles : (Outcome.ofPool base v.config v.catalog patterns v.floor).files =
      visits.map (·.report) := hreports
  refine ⟨v, files, s₀, during, done, visits, hv, hruns, hvisits, hfiles, hvisits.balances, ?_,
    ?_, ?_⟩
  · exact fun id hid hgone => hvisits.existsUnique_takesOut (Pool.contains_ofList hid) hgone
  · exact fun _ hg id hid => hg.contains_of_contains hid
  · have hsum := hvisits.sum_evicted
    rw [Pool.length_live_ofList] at hsum
    rw [hfiles, List.map_map]
    exact hsum

/-- A linter that reports `semi` in every text, and takes the second text that it is asked about for
broken. -/
def waveringLinter : Handler Linter Nat
  | .rules, n => (.ok [{ id := "semi" }, { id := "quotes" }], n)
  | .effectiveConfig base, n => (.ok base, n)
  | .listFiles _, n => (.ok ["a.js", "b.js"], n)
  | .read path, n => (⟨path.length, .ok path⟩, n)
  | .verify .., n => (.ok ⟨[{ ruleId := some "semi", fatal := n == 1 }], none⟩, n + 1)
  | .release _, n | .started _, n | .ticked, n | .finished, n | .warn _, n => ((), n)

/-- The first file is broken for its second candidate, so the second file takes `semi` out. -/
theorem evictions_inspectFiles_waveringLinter :
    ∃ r v, ((inspectFiles {} .empty ["*"]).run waveringLinter 0).1 = .ok r ∧
      ((survey {} .empty ["*"]).run waveringLinter 0).1 = .ok v ∧
      r.files = [⟨"a.js", 2, 0, true⟩, ⟨"b.js", 2, 1, false⟩] ∧
      1 + v.floor.pool.live.length = (Options.candidates v.catalog 255).length := by
  have hrun : ((inspectFiles {} .empty ["*"]).run waveringLinter 0).1.toOption.map (·.files) =
      some [⟨"a.js", 2, 0, true⟩, ⟨"b.js", 2, 1, false⟩] := by
    cbv
  rcases hr : ((inspectFiles {} .empty ["*"]).run waveringLinter 0).1 with e | r
  · rw [hr] at hrun
    cases hrun
  rw [hr] at hrun
  have hfiles : r.files = [⟨"a.js", 2, 0, true⟩, ⟨"b.js", 2, 1, false⟩] := Option.some.inj hrun
  obtain ⟨v, _, _, _, _, _, hv, _, _, _, _, _, _, htotal⟩ :=
    evictions_inspectFiles waveringLinter 0 {} .empty ["*"] hr
  rw [hfiles] at htotal
  exact ⟨r, v, rfl, hv, hfiles, htotal⟩

end LintSetup.Inspection
