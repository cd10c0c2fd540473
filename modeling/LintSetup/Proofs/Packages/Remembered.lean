import LintSetup.Proofs.Packages.Turns

/-!
# What a package manager remembers

What a look-up comes to is remembered if it is a success, and forgotten if it is a failure.
`Remembers` says so of the steps of a package manager, one package at a time: which run an answer is
from, when there is a run and when there is none, and that other packages make no difference.

Each part of it is about a single step of a package, or about one step and those before or after it.
So the lemmas about a turn come first, and then those about turns one after another, by induction;
`remembers_of_serves` puts them together.
-/

namespace LintSetup

namespace Packages

open Dialogue hiding bind_assoc

/-! ## What follows for answers and runs -/

/-- The failure that a result is, if it is one. -/
def failureOf {α : Type} : Except Failure α → Option Failure
  | .ok _ => none
  | .error f => some f

/-- The failure with which a look-up is answered in a step. -/
def failure? (step : Step Manager Host) : Option Failure :=
  match step.exchange with
  | ⟨.startLookup _, answer⟩ => failureOf (α := Unit) answer
  | ⟨.awaitLookup _, answer⟩ => failureOf (α := Peers) answer
  | ⟨.install _, _⟩ => none

/-- The peers with which a look-up is answered in a step. -/
def peers? (step : Step Manager Host) : Option Peers :=
  match step.exchange with
  | ⟨.awaitLookup _, answer⟩ => Except.toOption (α := Peers) answer
  | ⟨.startLookup _, _⟩ | ⟨.install _, _⟩ => none

@[simp] theorem failure?_startLookup (package : String) (r : Except Failure Unit)
    (taken : List (Exchange Host)) : failure? ⟨⟨.startLookup package, r⟩, taken⟩ = failureOf r :=
  rfl

@[simp] theorem failure?_awaitLookup (package : String) (r : Except Failure Peers)
    (taken : List (Exchange Host)) : failure? ⟨⟨.awaitLookup package, r⟩, taken⟩ = failureOf r :=
  rfl

@[simp] theorem peers?_awaitLookup (package : String) (r : Except Failure Peers)
    (taken : List (Exchange Host)) : peers? ⟨⟨.awaitLookup package, r⟩, taken⟩ = r.toOption :=
  rfl

/-- A run that looks a package up fails: it cannot be started, or it ends badly or with an output
that lists no peers. -/
inductive RunFails (context : Context) (package : String) (es : List (Exchange Host)) :
    Failure → Prop
  | unstarted {e : IoError}
    (h : ⟨.start (context.manager (Npm.lookupArgs package)) .buffered, Except.error e⟩ ∈ es) :
    RunFails context package es (startFailure e)
  | ended {process : ProcessId} {exit : Exit} {output : Text.Bytes} {f : Failure}
    (h : ⟨.wait process, (exit, output)⟩ ∈ es)
    (hf : concludeLookup package exit output = .error f) : RunFails context package es f

section Runs

variable {context : Context} {package : String} {es fs : List (Exchange Host)} {f : Failure}

theorem runFails_nil_iff : RunFails context package [] f ↔ False := by
  constructor
  · rintro (⟨⟨⟩⟩ | ⟨⟨⟩, -⟩)
  · exact False.elim

theorem runFails_append_iff :
    RunFails context package (es ++ fs) f ↔
      RunFails context package es f ∨ RunFails context package fs f := by
  constructor
  · rintro (h | ⟨h, hf⟩)
    · exact (List.mem_append.mp h).imp .unstarted .unstarted
    · exact (List.mem_append.mp h).imp (.ended · hf) (.ended · hf)
  · rintro ((h | ⟨h, hf⟩) | (h | ⟨h, hf⟩))
    · exact .unstarted (List.mem_append_left fs h)
    · exact .ended (List.mem_append_left fs h) hf
    · exact .unstarted (List.mem_append_right es h)
    · exact .ended (List.mem_append_right es h) hf

theorem runFails_launch_iff {started : Except IoError ProcessId} :
    RunFails context package (launch context package started) f ↔
      ∃ e, started = .error e ∧ f = startFailure e := by
  constructor
  · rintro (h | ⟨h, -⟩)
    · obtain h | h := mem_launch_iff.mp h
      · cases h
      · cases h
        exact ⟨_, rfl, rfl⟩
    · obtain h | h := mem_launch_iff.mp h
      · cases h
      · cases h
  · rintro ⟨e, rfl, rfl⟩
    exact .unstarted (List.mem_cons_of_mem _ (List.mem_singleton_self _))

theorem runFails_waiting_iff {process : ProcessId} {exit : Exit} {output : Text.Bytes} :
    RunFails context package (waiting process exit output) f ↔
      concludeLookup package exit output = .error f := by
  constructor
  · rintro (h | ⟨h, hf⟩)
    · cases List.mem_singleton.mp h
    · cases List.mem_singleton.mp h
      exact hf
  · exact .ended (List.mem_singleton_self _)

theorem failureOf_eq_some_iff {α : Type} {r : Except Failure α} :
    failureOf r = some f ↔ r = .error f := by
  cases r <;> simp [failureOf]

end Runs

namespace Turn

variable {context : Context} {package : String} {phase phase' : Phase} {step : Step Manager Host}

/-- A request fails exactly if a run fails, and with the failure of this run. -/
theorem failure?_eq_some_iff (h : Turn context package phase step phase') (f : Failure) :
    failure? step = some f ↔ RunFails context package step.taken f := by
  cases h with
  | started | recalls =>
    rw [runFails_nil_iff]
    exact ⟨nofun, False.elim⟩
  | starts process =>
    rw [runFails_launch_iff]
    exact ⟨nofun, nofun⟩
  | unstarted e =>
    rw [failure?_startLookup, failureOf_eq_some_iff, runFails_launch_iff]
    simp [eq_comm]
  | unrun e =>
    rw [failure?_awaitLookup, failureOf_eq_some_iff, runFails_launch_iff]
    simp [eq_comm]
  | finishes process exit output =>
    rw [failure?_awaitLookup, failureOf_eq_some_iff, runFails_waiting_iff]
  | runs process exit output =>
    rw [failure?_awaitLookup, failureOf_eq_some_iff, runFails_append_iff, runFails_launch_iff,
      runFails_waiting_iff]
    simp

/-- What a run comes to that is waited for is the answer. -/
theorem exchange_eq (h : Turn context package phase step phase') {process : ProcessId} {exit : Exit}
    {output : Text.Bytes} (hwait : ⟨.wait process, (exit, output)⟩ ∈ step.taken) :
    step.exchange = ⟨.awaitLookup package, concludeLookup package exit output⟩ := by
  have hlaunch {started : Except IoError ProcessId} :
      ⟨.wait process, (exit, output)⟩ ∉ launch context package started := by
    intro hmem
    obtain hmem | hmem := mem_launch_iff.mp hmem <;> cases hmem
  cases h with
  | started | recalls => cases hwait
  | starts | unstarted | unrun => exact absurd hwait hlaunch
  | finishes =>
    cases List.mem_singleton.mp hwait
    rfl
  | runs =>
    cases List.mem_singleton.mp ((List.mem_append.mp hwait).resolve_left hlaunch)
    rfl

theorem phase_after_of_failure {r : Except Failure Peers} (h : (failureOf r).isSome = true) :
    Phase.after r = .idle := by
  cases r with
  | error f => rfl
  | ok peers => cases h

/-- After a failure nothing is known, and no run is under way. -/
theorem phase_eq_idle (h : Turn context package phase step phase')
    (hfail : (failure? step).isSome = true) : phase' = .idle := by
  cases h with
  | started | starts | recalls => cases hfail
  | unstarted | unrun => rfl
  | finishes | runs => exact phase_after_of_failure hfail

/-- With nothing known and no run under way a request takes a run. -/
theorem runs_eq_one (h : Turn context package .idle step phase') :
    Packages.runs context package step.taken = 1 := by
  cases h with
  | started hne => exact absurd rfl hne
  | starts | unstarted | unrun => exact runs_launch_self _ _ _
  | runs => rw [runs_append, runs_launch_self, runs_waiting]

theorem eq_ok_of_toOption {r : Except Failure Peers} {peers : Peers}
    (h : r.toOption = some peers) : r = .ok peers := by
  cases r with
  | error f => cases h
  | ok found =>
    cases h
    rfl

/-- Peers that are answered are known. -/
theorem phase_eq_known (h : Turn context package phase step phase') {peers : Peers}
    (hpeers : peers? step = some peers) : phase' = .known peers := by
  cases h with
  | started | starts | unstarted | unrun => cases hpeers
  | recalls =>
    cases hpeers
    rfl
  | finishes | runs => exact congrArg Phase.after (eq_ok_of_toOption hpeers)

/-- Once the peers are known nothing is done any more, and they are the answer. -/
theorem of_known {peers : Peers} (h : Turn context package (.known peers) step phase') :
    phase' = .known peers ∧ step.taken = [] ∧ failure? step = none ∧
      ∀ others, peers? step = some others → others = peers := by
  cases h with
  | started => exact ⟨rfl, rfl, rfl, nofun⟩
  | recalls =>
    refine ⟨rfl, rfl, rfl, fun others hothers => ?_⟩
    cases hothers
    rfl

/-- Peers that are answered were known, or they are what a run has come to that was under way or
was started for this. -/
theorem exists_of_peers? (h : Turn context package phase step phase') {peers : Peers}
    (hpeers : peers? step = some peers) :
    phase = .known peers ∨ ∃ process exit output,
      (phase = .running process ∨ Launched context package process step.taken) ∧
        ⟨.wait process, (exit, output)⟩ ∈ step.taken ∧
          concludeLookup package exit output = .ok peers := by
  cases h with
  | started | starts | unstarted | unrun => cases hpeers
  | recalls =>
    cases hpeers
    exact .inl rfl
  | finishes process exit output =>
    exact .inr ⟨process, exit, output, .inl rfl, List.mem_singleton_self _,
      eq_ok_of_toOption hpeers⟩
  | runs process exit output =>
    exact .inr ⟨process, exit, output, .inr (List.mem_append_left _ (launched_launch _ _ _)),
      List.mem_append_right _ (List.mem_singleton_self _), eq_ok_of_toOption hpeers⟩

/-- A run that is under way was so before, or was started. -/
theorem of_running (h : Turn context package phase step phase') {process : ProcessId}
    (hphase : phase' = .running process) :
    phase = .running process ∨ Launched context package process step.taken := by
  cases h with
  | started => exact .inl hphase
  | starts =>
    cases hphase
    exact .inr (launched_launch _ _ _)
  | unstarted | recalls | unrun => cases hphase
  | finishes _ exit output | runs _ exit output =>
    cases hresult : concludeLookup package exit output <;> rw [hresult] at hphase <;> cases hphase

/-- Peers that are known were so before, or they are the answer. -/
theorem peers?_of_known (h : Turn context package phase step phase') {peers : Peers}
    (hphase : phase' = .known peers) : phase = .known peers ∨ peers? step = some peers := by
  cases h with
  | started => exact .inl hphase
  | starts | unstarted | unrun => cases hphase
  | recalls => exact .inl hphase
  | finishes _ exit output | runs _ exit output =>
    rw [peers?_awaitLookup]
    cases hresult : concludeLookup package exit output with
    | error f =>
      rw [hresult] at hphase
      cases hphase
    | ok found =>
      rw [hresult] at hphase
      cases hphase
      exact .inr rfl

/-- The runs that have not failed are those that the phases count. -/
theorem runs_add_count (h : Turn context package phase step phase') :
    Packages.runs context package step.taken + phase.count =
      (failure? step).toList.length + phase'.count := by
  have hafter (r : Except Failure Peers) :
      1 = (failureOf r).toList.length + (Phase.after r).count := by
    cases r <;> rfl
  cases h with
  | started | recalls => rfl
  | starts | unstarted | unrun => rw [runs_launch_self]; rfl
  | finishes => exact hafter _
  | runs =>
    rw [runs_append, runs_launch_self, runs_waiting]
    exact hafter _

end Turn

section Histories

variable {context : Context} {package : String} {phase phase' : Phase}
  {steps : List (Step Manager Host)}

/-- A run that is under way was so at first, or was started. -/
theorem Turns.of_running {process : ProcessId} (h : Turns context package phase steps phase')
    (hphase : phase' = .running process) :
    phase = .running process ∨ Launched context package process (steps.flatMap Step.taken) := by
  induction h with
  | nil => exact .inl hphase
  | cons hstep _ ih =>
    rw [List.flatMap_cons]
    obtain hmiddle | hlater := ih hphase
    · exact (hstep.of_running hmiddle).imp_right (List.mem_append_left _)
    · exact .inr (List.mem_append_right _ hlater)

/-- Peers that are known were so at first, or they were answered. -/
theorem Turns.peers?_of_known {peers : Peers} (h : Turns context package phase steps phase')
    (hphase : phase' = .known peers) :
    phase = .known peers ∨ ∃ step ∈ steps, peers? step = some peers := by
  induction h with
  | nil => exact .inl hphase
  | cons hstep _ ih =>
    obtain hmiddle | ⟨step, hmem, hpeers⟩ := ih hphase
    · exact (hstep.peers?_of_known hmiddle).imp_right fun hpeers => ⟨_, List.mem_cons_self, hpeers⟩
    · exact .inr ⟨step, List.mem_cons_of_mem _ hmem, hpeers⟩

/-- Once the peers are known nothing is done any more, and they are the answer. -/
theorem Turns.of_known {peers : Peers} (h : Turns context package phase steps phase')
    (hphase : phase = .known peers) :
    ∀ step ∈ steps, step.taken = [] ∧ failure? step = none ∧
      ∀ others, peers? step = some others → others = peers := by
  induction h with
  | nil => simp
  | cons hstep _ ih =>
    rw [hphase] at hstep
    obtain ⟨hstill, hanswer⟩ := hstep.of_known
    exact List.forall_mem_cons.mpr ⟨hanswer, ih hstill⟩

theorem Turns.runs_add_count (h : Turns context package phase steps phase') :
    runs context package (steps.flatMap Step.taken) + phase.count =
      (steps.filterMap failure?).length + phase'.count := by
  induction h with
  | nil => rfl
  | @cons phase middle phase' step steps hstep _ ih =>
    have hone := hstep.runs_add_count
    have hfailures : ((step :: steps).filterMap failure?).length =
        (failure? step).toList.length + (steps.filterMap failure?).length := by
      cases hfail : failure? step <;> simp [hfail, Nat.add_comm]
    rw [List.flatMap_cons, runs_append, hfailures]
    omega

/-- What happens at a step of a history, and what comes before and after it. -/
theorem Turns.split {before after : List (Step Manager Host)} {step : Step Manager Host}
    (h : Turns context package phase (before ++ step :: after) phase') :
    ∃ earlier later, Turns context package phase before earlier ∧
      Turn context package earlier step later ∧ Turns context package later after phase' := by
  obtain ⟨earlier, hbefore, _ | ⟨hstep, hafter⟩⟩ := turns_append_iff.mp h
  exact ⟨earlier, _, hbefore, hstep, hafter⟩

theorem Turns.turn_of_mem {step : Step Manager Host} (h : Turns context package phase steps phase')
    (hstep : step ∈ steps) : ∃ earlier later, Turn context package earlier step later := by
  obtain ⟨before, after, rfl⟩ := List.append_of_mem hstep
  obtain ⟨earlier, later, -, hturn, -⟩ := h.split
  exact ⟨earlier, later, hturn⟩

end Histories

/-! ## Remembering -/

/-- What steps of a package manager come to for one package. -/
structure Remembers (context : Context) (package : String) (steps : List (Step Manager Host)) :
    Prop where
  /-- Requests about other packages run nothing for this one. -/
  elsewhere : ∀ step ∈ steps, isAbout package step = false → runs context package step.taken = 0
  /-- The requests about this package are answered as if there were no others. -/
  alone : ∃ npm, Serves (Npm.answer context) {} (about package steps) npm
  /-- What a run comes to that is waited for is the answer. -/
  concluded : ∀ step ∈ about package steps, ∀ process exit output,
    ⟨.wait process, (exit, output)⟩ ∈ step.taken →
      step.exchange = ⟨.awaitLookup package, concludeLookup package exit output⟩
  /-- A request fails exactly if a run fails for it, and with the failure of this run. -/
  failed : ∀ step ∈ about package steps, ∀ f,
    failure? step = some f ↔ RunFails context package step.taken f
  /-- A failure is not remembered: the next request about the package takes a run. -/
  again : ∀ before step next after, about package steps = before ++ step :: next :: after →
    (failure? step).isSome = true → runs context package next.taken = 1
  /-- The first peers that are answered are what a run of this package has come to. -/
  learned : ∀ before step after peers, about package steps = before ++ step :: after →
    peers? step = some peers → (∀ earlier ∈ before, peers? earlier = none) →
      ∃ process exit output,
        Launched context package process ((before ++ [step]).flatMap Step.taken) ∧
          ⟨.wait process, (exit, output)⟩ ∈ step.taken ∧
            concludeLookup package exit output = .ok peers
  /-- From then on nothing is done for requests about the package, none of them fails, and the
  answer is the same. -/
  found : ∀ before step after peers, about package steps = before ++ step :: after →
    peers? step = some peers → ∀ later ∈ after, later.taken = [] ∧ failure? later = none ∧
      ∀ others, peers? later = some others → others = peers
  /-- There is at most one run that does not fail. -/
  counted : runs context package (steps.flatMap Step.taken) ≤
    ((about package steps).filterMap failure?).length + 1

variable {context : Context} {package : String} {steps : List (Step Manager Host)}

/-- Only the steps about a package run something for it. -/
theorem runs_flatMap_about
    (h : ∀ step ∈ steps, isAbout package step = false → runs context package step.taken = 0) :
    runs context package (steps.flatMap Step.taken) =
      runs context package ((about package steps).flatMap Step.taken) := by
  induction steps with
  | nil => rfl
  | cons step rest ih =>
    rw [List.forall_mem_cons] at h
    rw [List.flatMap_cons, runs_append, ih h.2]
    cases habout : isAbout package step with
    | true => rw [about_cons_of_pos habout, List.flatMap_cons, runs_append]
    | false => rw [about_cons_of_neg habout, h.1 habout, Nat.zero_add]

/-- A package manager that starts with nothing remembers. -/
theorem remembers_of_serves {npm : Npm} (h : Serves (Npm.answer context) {} steps npm)
    (package : String) : Remembers context package steps := by
  obtain ⟨hturns, helsewhere⟩ := turns_of_serves package h
  have hidle : Npm.phase {} package = .idle := rfl
  rw [hidle] at hturns
  refine ⟨helsewhere, exists_serves_of_turns hturns hidle, ?_, ?_, ?_, ?_, ?_, ?_⟩
  · intro step hstep process exit output hwait
    obtain ⟨_, _, hturn⟩ := hturns.turn_of_mem hstep
    exact hturn.exchange_eq hwait
  · intro step hstep f
    obtain ⟨_, _, hturn⟩ := hturns.turn_of_mem hstep
    exact hturn.failure?_eq_some_iff f
  · intro before step next after hsplit hfail
    rw [hsplit] at hturns
    obtain ⟨_, _, _, hturn, _ | ⟨hnext, _⟩⟩ := hturns.split
    rw [hturn.phase_eq_idle hfail] at hnext
    exact hnext.runs_eq_one
  · intro before step after peers hsplit hpeers hfirst
    rw [hsplit] at hturns
    obtain ⟨earlier, _, hbefore, hturn, -⟩ := hturns.split
    rw [List.flatMap_append, List.flatMap_singleton]
    obtain hknown | ⟨process, exit, output, hstarted, hwait, hok⟩ := hturn.exists_of_peers? hpeers
    · obtain hnever | ⟨answered, hmem, hpeers'⟩ := hbefore.peers?_of_known hknown
      · cases hnever
      · rw [hfirst answered hmem] at hpeers'
        cases hpeers'
    · refine ⟨process, exit, output, ?_, hwait, hok⟩
      obtain hrunning | hlaunched := hstarted
      · exact List.mem_append_left _ ((hbefore.of_running hrunning).resolve_left nofun)
      · exact List.mem_append_right _ hlaunched
  · intro before step after peers hsplit hpeers
    rw [hsplit] at hturns
    obtain ⟨_, _, _, hturn, hafter⟩ := hturns.split
    exact hafter.of_known (hturn.phase_eq_known hpeers)
  · have hcount := hturns.runs_add_count
    have hlast := (npm.phase package).count_le
    rw [runs_flatMap_about helsewhere]
    have hfirst : Phase.idle.count = 0 := rfl
    omega

end Packages
end LintSetup
