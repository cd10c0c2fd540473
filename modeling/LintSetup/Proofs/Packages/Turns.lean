import LintSetup.Packages.Npm
import LintSetup.Proofs.Dialogue

/-!
# What happens to one package

Look-ups are started and waited for in any order, several of them may be under way, and each run may
end well or not.  For one package there are three phases: nothing is known of it and no run is under
way, a run is under way, or its peers are known.  `Turn` says what can happen in each of them, with
all that is done on the machine for it.

* `turn_of_leads` --- a request about the package is a turn of it, and `aside_of_leads` --- a request
  about another one runs nothing for it and leaves it in its phase.
* `turns_of_serves` --- so the steps of a package manager are, for each package, turns one after
  another.
* `exists_serves_of_turns` --- and those turns are the steps of a package manager that is asked
  about this package only.
-/

namespace LintSetup

namespace Packages

open Dialogue hiding bind_assoc

/-! ## Runs -/

/-- Whether the machine is asked to run the program that looks a package up. -/
def isRun (context : Context) (package : String) : Host.Request → Bool
  | .start command .buffered => command = context.manager (Npm.lookupArgs package)
  | _ => false

/-- How many runs look a package up. -/
def runs (context : Context) (package : String) (es : List (Exchange Host)) : Nat :=
  es.countP fun e => isRun context package e.asked

/-- What is asked for to start a run that looks a package up. -/
def launch (context : Context) (package : String) (started : Except IoError ProcessId) :
    List (Exchange Host) :=
  [⟨.print (s!"Checking peer dependencies of '{package}'." ++ "\n"), ()⟩,
    ⟨.start (context.manager (Npm.lookupArgs package)) .buffered, started⟩]

/-- What is asked for to wait for a run. -/
def waiting (process : ProcessId) (exit : Exit) (output : Text.Bytes) : List (Exchange Host) :=
  [⟨.wait process, (exit, output)⟩]

@[simp] theorem runs_append (context : Context) (package : String) (es fs : List (Exchange Host)) :
    runs context package (es ++ fs) = runs context package es + runs context package fs :=
  List.countP_append

@[simp] theorem runs_waiting (context : Context) (package : String) (process : ProcessId)
    (exit : Exit) (output : Text.Bytes) :
    runs context package (waiting process exit output) = 0 :=
  rfl

theorem runs_launch_self (context : Context) (package : String)
    (started : Except IoError ProcessId) :
    runs context package (launch context package started) = 1 := by
  simp [runs, launch, isRun]

/-- The run that looks one package up does not look another one up. -/
theorem runs_launch_of_ne (context : Context) {package other : String} (h : other ≠ package)
    (started : Except IoError ProcessId) :
    runs context package (launch context other started) = 0 := by
  simp [runs, launch, isRun, Context.manager, Npm.lookupArgs, h]

theorem runs_eq_zero_iff {context : Context} {package : String} {es : List (Exchange Host)} :
    runs context package es = 0 ↔ ∀ e ∈ es, isRun context package e.asked = false := by
  simp [runs, List.countP_eq_zero]

/-- A process that looks a package up was started. -/
def Launched (context : Context) (package : String) (process : ProcessId)
    (es : List (Exchange Host)) : Prop :=
  ⟨.start (context.manager (Npm.lookupArgs package)) .buffered, Except.ok process⟩ ∈ es

theorem launched_launch (context : Context) (package : String) (process : ProcessId) :
    Launched context package process (launch context package (.ok process)) :=
  List.mem_cons_of_mem _ (List.mem_singleton_self _)

theorem mem_launch_iff {context : Context} {package : String} {started : Except IoError ProcessId}
    {e : Exchange Host} :
    e ∈ launch context package started ↔
      e = ⟨.print (s!"Checking peer dependencies of '{package}'." ++ "\n"), ()⟩ ∨
        e = ⟨.start (context.manager (Npm.lookupArgs package)) .buffered, started⟩ :=
  List.mem_cons.trans (or_congr_right List.mem_singleton)

/-- Whether a request is about a package. -/
def Request.concerns (package : String) : Request → Bool
  | .startLookup other | .awaitLookup other => other = package
  | .install _ => false

/-! ## Phases of a package -/

/-- What there is to a package: nothing, a run that is under way, or its peers. -/
inductive Phase where
  | idle
  | running (process : ProcessId)
  | known (peers : Peers)

/-- The phase after a run. -/
def Phase.after : Except Failure Peers → Phase
  | .ok peers => .known peers
  | .error _ => .idle

/-- How many runs there have been that have not failed. -/
def Phase.count : Phase → Nat
  | .idle => 0
  | .running _ | .known _ => 1

theorem Phase.count_le (phase : Phase) : phase.count ≤ 1 := by
  cases phase with
  | idle => exact Nat.zero_le 1
  | running | known => exact Nat.le_refl 1

/-- The phase of a package. -/
def Npm.phase (npm : Npm) (package : String) : Phase :=
  match Members.get? npm.known package, Members.get? npm.running package with
  | some peers, _ => .known peers
  | none, some process => .running process
  | none, none => .idle

/-- A request about a package that is answered in a phase, what is done for it, and the phase
afterwards. -/
inductive Turn (context : Context) (package : String) : Phase → Step Manager Host → Phase → Prop
  /-- Nothing is started where a run is under way or the peers are known. -/
  | started {phase : Phase} (h : phase ≠ .idle) :
    Turn context package phase ⟨⟨.startLookup package, Except.ok ()⟩, []⟩ phase
  | starts (process : ProcessId) :
    Turn context package .idle
      ⟨⟨.startLookup package, Except.ok ()⟩, launch context package (.ok process)⟩
      (.running process)
  | unstarted (e : IoError) :
    Turn context package .idle
      ⟨⟨.startLookup package, Except.error (startFailure e)⟩, launch context package (.error e)⟩
      .idle
  /-- Peers that are known are the answer. -/
  | recalls (peers : Peers) :
    Turn context package (.known peers) ⟨⟨.awaitLookup package, Except.ok peers⟩, []⟩ (.known peers)
  /-- A run that is under way is waited for, and the answer is what it comes to. -/
  | finishes (process : ProcessId) (exit : Exit) (output : Text.Bytes) :
    Turn context package (.running process)
      ⟨⟨.awaitLookup package, concludeLookup package exit output⟩, waiting process exit output⟩
      (.after (concludeLookup package exit output))
  /-- Where nothing is known and no run is under way, there is a new run. -/
  | runs (process : ProcessId) (exit : Exit) (output : Text.Bytes) :
    Turn context package .idle
      ⟨⟨.awaitLookup package, concludeLookup package exit output⟩,
        launch context package (.ok process) ++ waiting process exit output⟩
      (.after (concludeLookup package exit output))
  | unrun (e : IoError) :
    Turn context package .idle
      ⟨⟨.awaitLookup package, Except.error (startFailure e)⟩, launch context package (.error e)⟩
      .idle

/-- What is done for one package runs nothing for another one. -/
theorem Turn.runs_of_ne {context : Context} {package other : String} {phase phase' : Phase}
    {step : Step Manager Host} (h : Turn context other phase step phase') (hne : other ≠ package) :
    Packages.runs context package step.taken = 0 := by
  cases h with
  | started | recalls | finishes => rfl
  | starts | unstarted | unrun => exact runs_launch_of_ne context hne _
  | runs => rw [runs_append, runs_launch_of_ne context hne, runs_waiting]

/-! ## How a request is answered -/

namespace Npm

variable {context : Context} {package other : String} {npm npm' : Npm}
  {taken : List (Exchange Host)}

theorem phase_eq_known_iff {peers : Peers} :
    npm.phase package = .known peers ↔ Members.get? npm.known package = some peers := by
  unfold phase
  split <;> simp [*]

theorem phase_eq_running_iff {process : ProcessId} :
    npm.phase package = .running process ↔
      Members.get? npm.known package = none ∧
        Members.get? npm.running package = some process := by
  unfold phase
  split <;> simp [*]

theorem phase_eq_idle_iff :
    npm.phase package = .idle ↔
      Members.get? npm.known package = none ∧ Members.get? npm.running package = none := by
  unfold phase
  split <;> simp [*]

/-- What is kept when a run that looks a package up has been started, or has not. -/
def launched (package : String) (npm : Npm) : Except IoError ProcessId → Npm
  | .ok process => { npm with running := Members.set npm.running package process }
  | .error _ => npm

/-- What is kept when a run has come to a result. -/
def settled (package : String) (npm : Npm) : Except Failure Peers → Npm
  | .ok peers =>
    { running := Members.erase npm.running package, known := Members.set npm.known package peers }
  | .error _ => { npm with running := Members.erase npm.running package }

theorem phase_launched_self {process : ProcessId} (h : npm.phase package = .idle) :
    (npm.launched package (.ok process)).phase package = .running process :=
  phase_eq_running_iff.mpr ⟨(phase_eq_idle_iff.mp h).1, Members.get?_set_self _ _ _⟩

theorem phase_launched_ne (h : other ≠ package) (started : Except IoError ProcessId) :
    (npm.launched package started).phase other = npm.phase other := by
  cases started with
  | error e => rfl
  | ok process => rw [phase, phase, launched, Members.get?_set_ne _ _ h]

theorem phase_settled_self (h : Members.get? npm.known package = none) (r : Except Failure Peers) :
    (npm.settled package r).phase package = .after r := by
  cases r with
  | error f => exact phase_eq_idle_iff.mpr ⟨h, Members.get?_erase_self _ _⟩
  | ok peers => exact phase_eq_known_iff.mpr (Members.get?_set_self _ _ _)

theorem phase_settled_ne (h : other ≠ package) (r : Except Failure Peers) :
    (npm.settled package r).phase other = npm.phase other := by
  cases r with
  | error f => rw [phase, phase, settled, Members.get?_erase_ne _ h]
  | ok peers => rw [phase, phase, settled, Members.get?_erase_ne _ h, Members.get?_set_ne _ _ h]

theorem leads_startRun_iff {r : Except Failure ProcessId} :
    (startRun context package npm).Leads taken (r, npm') ↔
      ∃ started, taken = launch context package started ∧ r = started.mapError startFailure ∧
        npm' = npm.launched package started := by
  constructor
  · intro h
    obtain ⟨_, _, _, hsay, hrest, rfl⟩ := leads_bind_iff.mp h
    obtain ⟨_, started, _, hstart, hdone, rfl⟩ := leads_bind_iff.mp hrest
    rw [leads_ask_iff.mp hsay, leads_ask_iff.mp hstart]
    refine ⟨started, ?_⟩
    cases started with
    | error e | ok process =>
      obtain ⟨rfl, heq⟩ := leads_pure_iff.mp hdone
      cases heq
      exact ⟨rfl, rfl, rfl⟩
  · rintro ⟨started, rfl, rfl, rfl⟩
    refine leads_bind_iff.mpr ⟨_, (), _, leads_ask_iff.mpr rfl, leads_bind_iff.mpr
      ⟨_, started, [], leads_ask_iff.mpr rfl, ?_, rfl⟩, rfl⟩
    cases started with
    | error e | ok process => exact .done _

theorem leads_finishRun_iff {process : ProcessId} {r : Except Failure Peers} :
    (finishRun package process npm).Leads taken (r, npm') ↔
      ∃ exit output, taken = waiting process exit output ∧
        r = concludeLookup package exit output ∧ npm' = npm.settled package r := by
  constructor
  · intro h
    obtain ⟨_, ⟨exit, output⟩, _, hwait, hdone, rfl⟩ := leads_bind_iff.mp h
    rw [leads_ask_iff.mp hwait]
    refine ⟨exit, output, ?_⟩
    dsimp only at hdone
    split at hdone
    · next f heq =>
      obtain ⟨rfl, hpair⟩ := leads_pure_iff.mp hdone
      cases hpair
      exact ⟨rfl, heq.symm, rfl⟩
    · next peers heq =>
      obtain ⟨rfl, hpair⟩ := leads_pure_iff.mp hdone
      cases hpair
      exact ⟨rfl, heq.symm, rfl⟩
  · rintro ⟨exit, output, rfl, rfl, rfl⟩
    refine leads_bind_iff.mpr ⟨_, (exit, output), [], leads_ask_iff.mpr rfl, ?_, rfl⟩
    dsimp only
    cases concludeLookup package exit output with
    | error f | ok peers => exact .done _

theorem startLookup_of_ne_idle (h : npm.phase package ≠ .idle) :
    startLookup context package npm = pure (.ok (), npm) := by
  refine if_pos ?_
  rw [Bool.or_eq_true, Members.has, Members.has, Option.isSome_iff_ne_none, Option.isSome_iff_ne_none,
    ← not_and_or]
  exact mt phase_eq_idle_iff.mpr h

theorem startLookup_of_idle (h : npm.phase package = .idle) :
    startLookup context package npm = (do
      let (started, npm) ← startRun context package npm
      return (started.map fun _ => (), npm)) := by
  obtain ⟨hknown, hrunning⟩ := phase_eq_idle_iff.mp h
  refine if_neg ?_
  rw [Members.has, Members.has, hknown, hrunning]
  exact Bool.false_ne_true

theorem awaitLookup_of_known {peers : Peers} (h : npm.phase package = .known peers) :
    awaitLookup context package npm = pure (.ok peers, npm) := by
  rw [awaitLookup, phase_eq_known_iff.mp h]

theorem awaitLookup_of_running {process : ProcessId} (h : npm.phase package = .running process) :
    awaitLookup context package npm = finishRun package process npm := by
  obtain ⟨hknown, hrunning⟩ := phase_eq_running_iff.mp h
  rw [awaitLookup, hknown, hrunning]

theorem awaitLookup_of_idle (h : npm.phase package = .idle) :
    awaitLookup context package npm = (do
      match ← startRun context package npm with
      | (.error f, npm) => return (.error f, npm)
      | (.ok process, npm) => finishRun package process npm) := by
  obtain ⟨hknown, hrunning⟩ := phase_eq_idle_iff.mp h
  rewrite [awaitLookup, hknown, hrunning]
  rfl

/-- The phase of every other package is kept. -/
def KeepsOthers (package : String) (npm npm' : Npm) : Prop :=
  ∀ other, other ≠ package → npm'.phase other = npm.phase other

theorem turn_startLookup {r : Except Failure Unit}
    (h : (startLookup context package npm).Leads taken (r, npm')) :
    Turn context package (npm.phase package) ⟨⟨.startLookup package, r⟩, taken⟩
        (npm'.phase package) ∧
      KeepsOthers package npm npm' := by
  by_cases hidle : npm.phase package = .idle
  · rw [startLookup_of_idle hidle] at h
    obtain ⟨_, ⟨_, _⟩, _, hstart, hdone, rfl⟩ := leads_bind_iff.mp h
    obtain ⟨started, rfl, rfl, rfl⟩ := leads_startRun_iff.mp hstart
    obtain ⟨rfl, heq⟩ := leads_pure_iff.mp hdone
    cases heq
    refine ⟨?_, fun _ hne => phase_launched_ne hne started⟩
    rw [hidle, List.append_nil]
    cases started with
    | error e =>
      have hstill : (npm.launched package (.error e)).phase package = .idle := hidle
      rw [hstill]
      exact .unstarted e
    | ok process =>
      rw [phase_launched_self hidle]
      exact .starts process
  · rw [startLookup_of_ne_idle hidle] at h
    obtain ⟨rfl, heq⟩ := leads_pure_iff.mp h
    cases heq
    exact ⟨.started hidle, fun _ _ => rfl⟩

theorem turn_awaitLookup {r : Except Failure Peers}
    (h : (awaitLookup context package npm).Leads taken (r, npm')) :
    Turn context package (npm.phase package) ⟨⟨.awaitLookup package, r⟩, taken⟩
        (npm'.phase package) ∧
      KeepsOthers package npm npm' := by
  cases hphase : npm.phase package with
  | known peers =>
    rw [awaitLookup_of_known hphase] at h
    obtain ⟨rfl, heq⟩ := leads_pure_iff.mp h
    cases heq
    rw [hphase]
    exact ⟨.recalls peers, fun _ _ => rfl⟩
  | running process =>
    rw [awaitLookup_of_running hphase] at h
    obtain ⟨exit, output, rfl, rfl, rfl⟩ := leads_finishRun_iff.mp h
    rw [phase_settled_self (phase_eq_running_iff.mp hphase).1]
    exact ⟨.finishes process exit output, fun _ hne => phase_settled_ne hne _⟩
  | idle =>
    rw [awaitLookup_of_idle hphase] at h
    obtain ⟨_, ⟨_, _⟩, _, hstart, hrest, rfl⟩ := leads_bind_iff.mp h
    obtain ⟨started, rfl, rfl, rfl⟩ := leads_startRun_iff.mp hstart
    cases started with
    | error e =>
      obtain ⟨rfl, heq⟩ := leads_pure_iff.mp hrest
      cases heq
      have hstill : (npm.launched package (.error e)).phase package = .idle := hphase
      rw [hstill, List.append_nil]
      exact ⟨.unrun e, fun _ _ => rfl⟩
    | ok process =>
      obtain ⟨exit, output, rfl, rfl, rfl⟩ := leads_finishRun_iff.mp hrest
      have hrunning : (npm.launched package (.ok process)).phase package = .running process :=
        phase_launched_self hphase
      rw [phase_settled_self (phase_eq_running_iff.mp hrunning).1]
      exact ⟨.runs process exit output, fun _ hne =>
        (phase_settled_ne hne _).trans (phase_launched_ne hne _)⟩

/-- Installing packages runs no look-up. -/
theorem runs_install {packages : List String} {r : Except Failure Unit}
    (h : (install context packages).Leads taken r) : runs context package taken = 0 := by
  have hask {r : Host.Request} (hr : isRun context package r = false) :
      (Host.ask r).Always fun r => isRun context package r = false := always_ask hr
  have hnone : (install context packages).Always fun r => isRun context package r = false := by
    refine Always.bind (hask rfl) fun _ => Always.bind (Always.bind (hask rfl) fun started => ?_)
      fun result => ?_
    · cases started with
      | error e => exact always_pure _
      | ok process => exact Always.bind (hask rfl) fun _ => always_pure _
    · cases result with
      | error e | ok exit => exact always_pure _
  exact runs_eq_zero_iff.mpr (hnone _ _ h)

/-- A request about a package, as seen by this package. -/
theorem turn_of_leads {r : Request} (hr : r.concerns package = true) {a : Manager.Response r}
    (h : (answer context r npm).Leads taken (a, npm')) :
    Turn context package (npm.phase package) ⟨⟨r, a⟩, taken⟩ (npm'.phase package) := by
  cases r with
  | startLookup other =>
    obtain rfl : other = package := of_decide_eq_true hr
    exact (turn_startLookup h).1
  | awaitLookup other =>
    obtain rfl : other = package := of_decide_eq_true hr
    exact (turn_awaitLookup h).1
  | install packages => cases hr

/-- A request as seen by another package: nothing is run for it, and it stays in its phase. -/
theorem aside_of_leads {r : Request} (hr : r.concerns package = false) {a : Manager.Response r}
    (h : (answer context r npm).Leads taken (a, npm')) :
    runs context package taken = 0 ∧ npm'.phase package = npm.phase package := by
  cases r with
  | startLookup other =>
    have hne : other ≠ package := of_decide_eq_false hr
    obtain ⟨hturn, hkept⟩ := turn_startLookup h
    exact ⟨hturn.runs_of_ne hne, hkept package hne.symm⟩
  | awaitLookup other =>
    have hne : other ≠ package := of_decide_eq_false hr
    obtain ⟨hturn, hkept⟩ := turn_awaitLookup h
    exact ⟨hturn.runs_of_ne hne, hkept package hne.symm⟩
  | install packages =>
    obtain ⟨before, result, _, hinstall, hdone, rfl⟩ := leads_bind_iff.mp h
    obtain ⟨rfl, heq⟩ := leads_pure_iff.mp hdone
    cases heq
    rw [List.append_nil]
    exact ⟨runs_install hinstall, rfl⟩

end Npm

/-! ## Requests one after another -/

section Turns

variable {context : Context} {package : String} {phase phase' phase'' : Phase}
  {step : Step Manager Host} {steps before after : List (Step Manager Host)}

/-- Requests about a package that are answered one after another. -/
inductive Turns (context : Context) (package : String) :
    Phase → List (Step Manager Host) → Phase → Prop
  | nil (phase : Phase) : Turns context package phase [] phase
  | cons {phase phase' phase'' : Phase} {step : Step Manager Host}
    {steps : List (Step Manager Host)} (h : Turn context package phase step phase')
    (hrest : Turns context package phase' steps phase'') :
    Turns context package phase (step :: steps) phase''

/-- Whether a step is about a package. -/
def isAbout (package : String) (step : Step Manager Host) : Bool :=
  Request.concerns package step.exchange.asked

/-- The steps that are about a package. -/
def about (package : String) (steps : List (Step Manager Host)) : List (Step Manager Host) :=
  steps.filter (isAbout package)

theorem about_cons_of_pos (h : isAbout package step = true) :
    about package (step :: steps) = step :: about package steps :=
  List.filter_cons_of_pos h

theorem about_cons_of_neg (h : isAbout package step = false) :
    about package (step :: steps) = about package steps :=
  List.filter_cons_of_neg (by rw [h]; exact Bool.false_ne_true)

theorem turns_append_iff :
    Turns context package phase (before ++ after) phase'' ↔
      ∃ phase', Turns context package phase before phase' ∧
        Turns context package phase' after phase'' := by
  induction before generalizing phase with
  | nil =>
    constructor
    · exact fun h => ⟨phase, .nil phase, h⟩
    · rintro ⟨_, ⟨⟩, h⟩
      exact h
  | cons step before ih =>
    constructor
    · rintro (_ | ⟨h, hrest⟩)
      obtain ⟨phase', hbefore, hafter⟩ := ih.mp hrest
      exact ⟨phase', .cons h hbefore, hafter⟩
    · rintro ⟨phase', _ | ⟨h, hbefore⟩, hafter⟩
      exact .cons h (ih.mpr ⟨phase', hbefore, hafter⟩)

/-- A history of several packages is one of each of them, in which nothing is run for it by the
requests about the others. -/
theorem turns_of_serves (package : String) {npm npm' : Npm}
    (h : Serves (Npm.answer context) npm steps npm') :
    Turns context package (npm.phase package) (about package steps) (npm'.phase package) ∧
      ∀ step ∈ steps, isAbout package step = false → runs context package step.taken = 0 := by
  induction h with
  | nil npm => exact ⟨.nil _, by simp⟩
  | @cons r a taken npm npm' npm'' steps hstep hrest ih =>
    cases hr : isAbout package ⟨⟨r, a⟩, taken⟩ with
    | true =>
      rw [about_cons_of_pos hr]
      refine ⟨.cons (Npm.turn_of_leads hr hstep) ih.1, List.forall_mem_cons.mpr ⟨?_, ih.2⟩⟩
      intro hfalse
      rw [hr] at hfalse
      cases hfalse
    | false =>
      obtain ⟨hnone, hphase⟩ := Npm.aside_of_leads hr hstep
      rw [about_cons_of_neg hr, ← hphase]
      exact ⟨ih.1, List.forall_mem_cons.mpr ⟨fun _ => hnone, ih.2⟩⟩

/-- What can happen to a package in a phase happens in every state with this phase. -/
theorem exists_leads_of_turn {npm : Npm} {r : Request} {a : Manager.Response r}
    {taken : List (Exchange Host)} (h : Turn context package phase ⟨⟨r, a⟩, taken⟩ phase')
    (hphase : npm.phase package = phase) :
    ∃ npm', (Npm.answer context r npm).Leads taken (a, npm') ∧ npm'.phase package = phase' := by
  have hlaunch (started : Except IoError ProcessId) :
      (Npm.startRun context package npm).Leads (launch context package started)
        (started.mapError startFailure, npm.launched package started) :=
    Npm.leads_startRun_iff.mpr ⟨started, rfl, rfl, rfl⟩
  have hwait (npm : Npm) (process : ProcessId) (exit : Exit) (output : Text.Bytes) :
      (Npm.finishRun package process npm).Leads (waiting process exit output)
        (concludeLookup package exit output,
          npm.settled package (concludeLookup package exit output)) :=
    Npm.leads_finishRun_iff.mpr ⟨exit, output, rfl, rfl, rfl⟩
  cases h with
  | started hne =>
    refine ⟨npm, ?_, hphase⟩
    rw [Npm.answer, Npm.startLookup_of_ne_idle (hphase.trans_ne hne)]
    exact .done _
  | starts process =>
    refine ⟨_, ?_, Npm.phase_launched_self hphase⟩
    rw [Npm.answer, Npm.startLookup_of_idle hphase]
    exact leads_bind_iff.mpr ⟨_, _, [], hlaunch (.ok process), .done _, (List.append_nil _).symm⟩
  | unstarted e =>
    refine ⟨npm, ?_, hphase⟩
    rw [Npm.answer, Npm.startLookup_of_idle hphase]
    exact leads_bind_iff.mpr ⟨_, _, [], hlaunch (.error e), .done _, (List.append_nil _).symm⟩
  | recalls peers =>
    refine ⟨npm, ?_, hphase⟩
    rw [Npm.answer, Npm.awaitLookup_of_known hphase]
    exact .done _
  | finishes process exit output =>
    refine ⟨_, ?_, Npm.phase_settled_self (Npm.phase_eq_running_iff.mp hphase).1 _⟩
    rw [Npm.answer, Npm.awaitLookup_of_running hphase]
    exact hwait npm process exit output
  | runs process exit output =>
    have hrunning : (npm.launched package (.ok process)).phase package = .running process :=
      Npm.phase_launched_self hphase
    refine ⟨_, ?_, Npm.phase_settled_self (Npm.phase_eq_running_iff.mp hrunning).1 _⟩
    rw [Npm.answer, Npm.awaitLookup_of_idle hphase]
    exact leads_bind_iff.mpr ⟨_, _, _, hlaunch (.ok process), hwait _ process exit output, rfl⟩
  | unrun e =>
    refine ⟨npm, ?_, hphase⟩
    rw [Npm.answer, Npm.awaitLookup_of_idle hphase]
    exact leads_bind_iff.mpr ⟨_, _, [], hlaunch (.error e), .done _, (List.append_nil _).symm⟩

/-- A history of one package is one of a package manager that is asked for nothing else. -/
theorem exists_serves_of_turns {npm : Npm} (h : Turns context package phase steps phase')
    (hphase : npm.phase package = phase) :
    ∃ npm', Serves (Npm.answer context) npm steps npm' := by
  induction h generalizing npm with
  | nil phase => exact ⟨npm, .nil npm⟩
  | cons hstep hrest ih =>
    obtain ⟨npm', hleads, hphase'⟩ := exists_leads_of_turn hstep hphase
    obtain ⟨npm'', hserves⟩ := ih hphase'
    exact ⟨npm'', .cons hleads hserves⟩

end Turns

end Packages
end LintSetup
