import LintSetup.CommandLine.Run
import LintSetup.Proofs.Packages.Remembered
import LintSetup.Proofs.Wizard.Versions

/-!
# Look-ups in a whole set-up

A set-up may look the same package up twice, and a configuration may name a plugin more than once.
Still the user does not wait twice: one package manager answers all look-ups of a set-up, and what it
has found it does not run for again.

A set-up that succeeds is a preparation and its completion (`Course.exists_of_ok`).  It has met with
no failure on its way (`Course.answered`), and whatever it asks of the machine itself, that runs no
look-up (`Course.isRun_eq_false`).  So all runs that look a package up are those of the package
manager (`exists_serves_of_serves`), which does one of them at most unless it fails.
-/

namespace LintSetup

open Dialogue hiding bind_assoc

/-! ## What a set-up asks for -/

namespace Wizard

variable {context : Context} {debug : Bool} {package : String} {es : List (Exchange Wizard)}
  {r : Except Error String}

/-- What is asked once everything is prepared: to install packages, whatever the linter is needed
for, and to write the file. -/
def Request.IsCompletion : Request → Prop
  | .packages (.install _) | .host (.write ..) => True
  | .host r => Bridge.ForLinter r
  | .question _ | .packages _ => False

theorem isCompletion_onHost {hs : List (Exchange Host)} (h : ∀ e ∈ hs, Bridge.ForLinter e.asked) :
    ∀ e ∈ onHost hs, Request.IsCompletion e.asked := by
  refine List.forall_mem_map.mpr fun e he => ?_
  have hasked := h e he
  obtain ⟨r, answer⟩ := e
  cases r with
  | write => exact trivial
  | _ => exact hasked

theorem Installs.isCompletion {all : List String} {result : Except Failure Unit}
    (h : Installs all es result) : ∀ e ∈ es, Request.IsCompletion e.asked := by
  cases h with
  | nothing => exact List.forall_mem_nil _
  | once => exact List.forall_mem_cons.mpr ⟨trivial, List.forall_mem_singleton.mpr trivial⟩

theorem Finishes.isCompletion {d : Draft} {result : Except Error Config}
    (h : Finishes context debug d es result) : ∀ e ∈ es, Request.IsCompletion e.asked := by
  cases h with
  | drafted => exact List.forall_mem_nil _
  | inspected _ hleads =>
    exact List.forall_mem_append.mpr
      ⟨isCompletion_onHost (Bridge.forLinter_inspect _ _ _ _ _ _ hleads),
        List.forall_mem_singleton.mpr trivial⟩
  | uninspected _ hleads | unlinted _ hleads =>
    exact isCompletion_onHost (Bridge.forLinter_inspect _ _ _ _ _ _ hleads)

theorem Renders.isCompletion {path : String} {config : Config} {format : FileFormat}
    {hs : List (Exchange Host)} {text : String} (h : Renders path config format hs text) :
    ∀ e ∈ onHost hs, Request.IsCompletion e.asked := by
  cases h with
  | plain => exact List.forall_mem_nil _
  | mended _ hleads => exact isCompletion_onHost (Bridge.forLinter_fix _ _ _ _ _ hleads)

/-- A set-up that succeeds has two parts: the preparation of a plan, and its completion. -/
theorem Course.exists_of_ok {path : String} (h : Course context debug es r) (hr : r = .ok path) :
    ∃ asked p later, Prepared context asked p ∧ (∀ e ∈ later, Request.IsCompletion e.asked) ∧
      es = asked ++ later := by
  cases h with
  | noPackageJson | unprepared | uninstalled | unfinished => cases hr
  | @finished asked installing finishing p _ rendering path text written _ hprepared hinstalls
      hfinishes _ hrenders =>
    refine ⟨asked, p, installing ++ finishing ++ onHost rendering ++ [⟨.host (.write path text),
      written⟩], hprepared, ?_, by simp only [List.append_assoc]⟩
    simp only [List.forall_mem_append]
    exact ⟨⟨⟨hinstalls.isCompletion, hfinishes.isCompletion⟩, hrenders.isCompletion⟩,
      List.forall_mem_singleton.mpr trivial⟩

/-- Whether the machine itself is asked to run the program that looks a package up. -/
def Request.isRun (context : Context) (package : String) : Request → Bool
  | .host r => Packages.isRun context package r
  | .question _ | .packages _ => false

theorem isRun_of_isPreparation {r : Request} (h : r.IsPreparation) :
    r.isRun context package = false := by
  cases r with
  | question | packages => rfl
  | host r =>
    cases r with
    | files => rfl
    | _ => exact h.elim

theorem isRun_of_isCompletion {r : Request} (h : r.IsCompletion) :
    r.isRun context package = false := by
  cases r with
  | question | packages => rfl
  | host r =>
    cases r with
    | start command streams =>
      cases streams with
      | piped => rfl
      | shared | buffered => exact h.elim
    | _ => rfl

theorem answered_of_isCompletion {e : Exchange Wizard} (h : Request.IsCompletion e.asked) :
    Answered e := by
  obtain ⟨q | r | r, answer⟩ := e
  · exact h.elim
  · cases r with
    | install => exact trivial
    | startLookup | awaitLookup => exact h.elim
  · exact trivial

/-- Where a set-up succeeds, every question is answered and no look-up fails. -/
theorem Course.answered {path : String} (h : Course context debug es r) (hr : r = .ok path) :
    ∀ e ∈ es, Answered e := by
  obtain ⟨asked, p, later, hprepared, hlater, rfl⟩ := h.exists_of_ok hr
  exact List.forall_mem_append.mpr
    ⟨hprepared.answered, fun e he => answered_of_isCompletion (hlater e he)⟩

/-- It leaves all look-ups to the package manager. -/
theorem Course.isRun_eq_false {path : String} (h : Course context debug es r) (hr : r = .ok path)
    (package : String) : ∀ e ∈ es, Request.isRun context package e.asked = false := by
  obtain ⟨asked, p, later, hprepared, hlater, rfl⟩ := h.exists_of_ok hr
  exact List.forall_mem_append.mpr ⟨fun e he => isRun_of_isPreparation (hprepared.asked e he),
    fun e he => isRun_of_isCompletion (hlater e he)⟩

end Wizard

/-! ## What reaches the machine -/

namespace CommandLine

open Packages (Manager Npm Remembers Turn Turns about concludeLookup exists_leads_of_turn
  exists_serves_of_turns exitFailure failure? isRun remembers_of_serves runs waiting)

variable {context : Context} {package : String} {npm npm' : Npm} {taken : List (Exchange Terminal)}

/-- Whether the machine is asked to run the program that looks a package up. -/
def Terminal.Request.isShow (context : Context) (package : String) : Terminal.Request → Bool
  | .host r => isRun context package r
  | .question _ => false

/-- How many runs look a package up. -/
def shows (context : Context) (package : String) (es : List (Exchange Terminal)) : Nat :=
  es.countP fun e => Terminal.Request.isShow context package e.asked

theorem shows_append (es fs : List (Exchange Terminal)) :
    shows context package (es ++ fs) = shows context package es + shows context package fs :=
  List.countP_append

/-- An exchange with the machine as one with the machine and the user. -/
def ofHost (e : Exchange Host) : Exchange Terminal := ⟨.host e.asked, e.answer⟩

/-- Exchanges with the machine as exchanges with the machine and the user. -/
def atTerminal (hs : List (Exchange Host)) : List (Exchange Terminal) := hs.map ofHost

theorem shows_atTerminal (hs : List (Exchange Host)) :
    shows context package (atTerminal hs) = runs context package hs :=
  List.countP_map

/-- A conversation with the machine goes the same ways as a part of the program. -/
theorem leads_onHost_iff {α : Type} {d : Host.Session α} {a : α} :
    (onHost d).Leads taken a ↔ ∃ hs, d.Leads hs a ∧ taken = atTerminal hs := by
  constructor
  · exact exists_of_leads_through_one (f := ofHost) fun _ _ _ h => leads_ask_iff.mp h
  · rintro ⟨hs, h, rfl⟩
    exact h.through_one (f := ofHost) fun _ _ => leads_ask_iff.mpr rfl

/-- A request that is handed on leaves the package manager as it is. -/
theorem leads_handOn_iff {r : Terminal.Request} {a : r.Response} :
    (do return (← Dialogue.ask (I := Terminal) r, npm) : Dialogue Terminal (r.Response × Npm)).Leads
        taken (a, npm') ↔ taken = [⟨r, a⟩] ∧ npm' = npm := by
  constructor
  · intro h
    obtain ⟨_, _, _, hask, hdone, rfl⟩ := leads_bind_iff.mp h
    obtain ⟨rfl, heq⟩ := leads_pure_iff.mp hdone
    cases heq
    rw [List.append_nil]
    exact ⟨leads_ask_iff.mp hask, rfl⟩
  · rintro ⟨rfl, rfl⟩
    exact leads_bind_iff.mpr ⟨_, a, [], leads_ask_iff.mpr rfl, .done _, rfl⟩

/-- What the package manager is asked in a set-up, and what is run for that, is what a package
manager alone is asked and runs. -/
theorem exists_serves_of_serves {steps : List (Step Wizard Terminal)}
    (h : Serves (serve context) npm steps npm')
    (hnone : ∀ e ∈ steps.map Step.exchange, Wizard.Request.isRun context package e.asked = false) :
    ∃ turns, Serves (Npm.answer context) npm turns npm' ∧
      Wizard.onPackages (turns.map Step.exchange) ⊆ steps.map Step.exchange ∧
      shows context package (steps.flatMap Step.taken) =
        runs context package (turns.flatMap Step.taken) := by
  induction h with
  | nil npm => exact ⟨[], .nil npm, List.Subset.refl _, rfl⟩
  | @cons r a taken npm middle npm' steps hstep _ ih =>
    obtain ⟨hfirst, hothers⟩ := List.forall_mem_cons.mp hnone
    obtain ⟨turns, hturns, hasked, hruns⟩ := ih hothers
    cases r with
    | question q =>
      obtain ⟨rfl, rfl⟩ := leads_handOn_iff.mp hstep
      refine ⟨turns, hturns, List.subset_cons_of_subset _ hasked, ?_⟩
      have hown : shows context package [⟨.question q, a⟩] = 0 := rfl
      rw [List.flatMap_cons, shows_append, hown, Nat.zero_add, hruns]
    | packages p =>
      obtain ⟨hs, hleads, rfl⟩ := leads_onHost_iff.mp hstep
      refine ⟨⟨⟨p, a⟩, hs⟩ :: turns, .cons hleads hturns, List.cons_subset_cons _ hasked, ?_⟩
      rw [List.flatMap_cons, List.flatMap_cons, shows_append, Packages.runs_append,
        shows_atTerminal, hruns]
    | host r =>
      obtain ⟨rfl, rfl⟩ := leads_handOn_iff.mp hstep
      refine ⟨turns, hturns, List.subset_cons_of_subset _ hasked, ?_⟩
      have hown : shows context package (atTerminal [⟨r, a⟩]) = 0 := by
        rw [shows_atTerminal, Packages.runs_eq_zero_iff]
        exact List.forall_mem_singleton.mpr hfirst
      rw [List.flatMap_cons, shows_append, hruns]
      exact Nat.add_eq_right.mpr hown

/-- A look-up that is answered has not failed. -/
theorem failure?_eq_none {turn : Step Manager Host}
    (h : Wizard.Answered ⟨.packages turn.exchange.asked, turn.exchange.answer⟩) :
    failure? turn = none := by
  obtain ⟨⟨r, a⟩, taken⟩ := turn
  cases r with
  | startLookup package =>
    obtain rfl : a = Except.ok () := h
    rfl
  | awaitLookup package =>
    obtain ⟨peers, rfl⟩ : ∃ peers, a = Except.ok peers := h
    rfl
  | install packages => rfl

/-- A set-up that succeeds runs at most one look-up of each package. -/
theorem shows_le_one {debug : Bool} {es : List (Exchange Terminal)} {path : String} {npm : Npm}
    (h : ((Wizard.setUp context debug).run.throughWith (serve context) {}).Leads es
      (.ok path, npm)) (package : String) : shows context package es ≤ 1 := by
  obtain ⟨steps, hserves, hleads, rfl⟩ := leads_throughWith_iff.mp h
  have hcourse := Wizard.course_of_leads hleads
  obtain ⟨turns, hturns, hasked, hshows⟩ :=
    exists_serves_of_serves hserves (hcourse.isRun_eq_false rfl package)
  have hfailures : (about package turns).filterMap failure? = [] := by
    refine List.filterMap_eq_nil_iff.mpr fun turn hturn => failure?_eq_none ?_
    exact hcourse.answered rfl _ (hasked (List.mem_map_of_mem (List.mem_map_of_mem
      (List.mem_of_mem_filter hturn))))
  have hcount := (remembers_of_serves hturns package).counted
  rw [hfailures] at hcount
  rwa [hshows]

/-- **What look-ups come to is remembered, unless they fail.**  Whoever asks a package manager for
packages, in whatever order and however often, and whatever the runs of its program come to: what
happens to each package is as `Remembers` says.  So a set-up that succeeds runs at most one look-up
of each package. -/
theorem lookups_remembered (context : Context) :
    (∀ {α : Type} (d : Dialogue Manager α) (es : List (Exchange Host)) (a : α) (npm : Npm),
      (d.throughWith (Npm.answer context) {}).Leads es (a, npm) →
        ∃ steps, d.Leads (steps.map Step.exchange) a ∧ es = steps.flatMap Step.taken ∧
          ∀ package, Remembers context package steps) ∧
    ∀ (debug : Bool) (es : List (Exchange Terminal)) (path : String) (npm : Npm),
      ((Wizard.setUp context debug).run.throughWith (serve context) {}).Leads es (.ok path, npm) →
        ∀ package, shows context package es ≤ 1 := by
  refine ⟨fun d es a npm h => ?_, fun debug es path npm h => shows_le_one h⟩
  obtain ⟨steps, hserves, hleads, htaken⟩ := leads_throughWith_iff.mp h
  exact ⟨steps, hleads, htaken, remembers_of_serves hserves⟩

/-! ## Look-ups of a style guide -/

open Wizard (leads_request olderDisk olderProject)

/-- A style guide whose package has no peers. -/
def google : Config := .ofGuide .google

/-- The package of the style guide, as it is looked up. -/
abbrev googlePackage : String := "eslint-config-google@latest"

/-- The packages that are installed for the style guide. -/
def googlePackages : List String := [googlePackage, "eslint@latest"]

/-- Three look-ups of the package. -/
def threeLookups : Dialogue Manager (List (Except Failure Packages.Peers)) := do
  let first ← Dialogue.ask (I := Manager) (.awaitLookup googlePackage)
  let second ← Dialogue.ask (I := Manager) (.awaitLookup googlePackage)
  let third ← Dialogue.ask (I := Manager) (.awaitLookup googlePackage)
  return [first, second, third]

/-- What is run for them where the first run ends badly and the second one well. -/
def twoRuns : List (Exchange Host) :=
  Packages.launch olderProject googlePackage (.ok 0) ++ waiting 0 (.code 1) [] ++
    (Packages.launch olderProject googlePackage (.ok 1) ++ waiting 1 (.code 0) [])

theorem exists_leads_threeLookups :
    ∃ npm, (threeLookups.throughWith (Npm.answer olderProject) {}).Leads twoRuns
      ([.error (exitFailure (.code 1)), .ok [], .ok []], npm) := by
  have hturns : Turns olderProject googlePackage .idle
      [⟨⟨.awaitLookup googlePackage, concludeLookup googlePackage (.code 1) []⟩, _⟩,
        ⟨⟨.awaitLookup googlePackage, concludeLookup googlePackage (.code 0) []⟩, _⟩,
        ⟨⟨.awaitLookup googlePackage, Except.ok []⟩, _⟩] (.known []) :=
    .cons (.runs 0 (.code 1) []) (.cons (.runs 1 (.code 0) []) (.cons (.recalls []) (.nil _)))
  have hidle : Npm.phase {} googlePackage = .idle := rfl
  obtain ⟨npm, hserves⟩ := exists_serves_of_turns hturns hidle
  refine ⟨npm, leads_throughWith_iff.mpr ⟨_, hserves, ?_, rfl⟩⟩
  exact .request _ (.request _ (.request _ (.done _)))

/-- The questions before the look-ups, for a configuration file in YAML, and the files. -/
def googleQuestions : List (Step Wizard Terminal) :=
  let chosen (message : String) (labels : List String) (place : Nat) : Step Wizard Terminal :=
    ⟨⟨.question (.select message labels 0), Except.ok place⟩,
      [⟨.question (.select message labels 0), Except.ok place⟩]⟩
  [chosen "How would you like to configure ESLint?"
      [Method.style.label, Method.guide.label, Method.files.label] 1,
    chosen "Which style guide do you want to follow?" ["Google", "Airbnb", "Standard"] 0,
    chosen "What format do you want your config file to be in?" ["JavaScript", "YAML", "JSON"] 1,
    ⟨⟨.host .files, olderDisk⟩, [⟨.host .files, olderDisk⟩]⟩]

/-- A look-up of the package with what is run to start it and to wait for it. -/
def googleLookup (starting waiting : List (Exchange Host)) : List (Step Wizard Terminal) :=
  [⟨⟨.packages (.startLookup googlePackage), Except.ok ()⟩, atTerminal starting⟩,
    ⟨⟨.packages (.awaitLookup googlePackage), Except.ok []⟩, atTerminal waiting⟩]

/-- A run that installs the packages. -/
def googleInstallation : List (Exchange Host) :=
  let install := Npm.installCommand olderProject googlePackages
  [⟨.print (install.display ++ "\n"), ()⟩, ⟨.start install .shared, Except.ok (1 : Nat)⟩,
    ⟨.wait 1, (.code 0, [])⟩]

/-- The installation and the file. -/
def googleChanges : List (Step Wizard Terminal) :=
  let announced : Host.Request := .print (Wizard.announcement googlePackages)
  let written : Host.Request := .write (olderProject.configPath ".yml") (FileFormat.yaml.text google)
  [⟨⟨.host announced, ()⟩, [⟨.host announced, ()⟩]⟩,
    ⟨⟨.packages (.install googlePackages), Except.ok ()⟩, atTerminal googleInstallation⟩,
    ⟨⟨.host written, Except.ok ()⟩, [⟨.host written, Except.ok ()⟩]⟩]

/-- A set-up that looks the package up twice. -/
def googleSteps : List (Step Wizard Terminal) :=
  googleQuestions ++
    googleLookup (Packages.launch olderProject googlePackage (.ok 0)) (waiting 0 (.code 0) []) ++
    googleLookup [] [] ++ googleChanges

theorem leads_googleLookup (wanted : Bool) :
    (Wizard.packages (Packages.required google wanted)).run.Leads
      ((googleLookup [] []).map Step.exchange) (.ok (Packages.needed google [[]] wanted)) :=
  leads_request (r := .packages (.startLookup googlePackage)) (Except.ok ())
    (leads_request (r := .packages (.awaitLookup googlePackage)) (Except.ok []) (.done _))

theorem conflict_google :
    Packages.Conflict.of? "3" (Packages.needed google [[]] true) = none := by
  have hdemanded : Packages.demandedRange? (Packages.needed google [[]] true) = none := by
    decide +kernel
  rw [Packages.Conflict.of?, hdemanded, Option.bind_none]

theorem leads_findConflict_google :
    (Wizard.findConflict olderProject google).run.Leads
      ([⟨.host .files, olderDisk⟩] ++ ((googleLookup [] []).map Step.exchange ++ [])) (.ok none) := by
  unfold Wizard.findConflict
  refine Leads.bind_ok (leads_request (r := .host .files) olderDisk (.done _)) ?_
  simp only [Wizard.readText_olderDisk, Wizard.localRange?_olderJson]
  refine Leads.bind_ok (leads_googleLookup true) ?_
  rw [conflict_google]
  exact .done _

theorem leads_googleSteps :
    (Wizard.setUp olderProject false).run.Leads (googleSteps.map Step.exchange)
      (.ok (olderProject.configPath ".yml")) := by
  have hdraft : (Wizard.askDraft true).run.Leads [_, _] (.ok { config := google }) :=
    leads_request (r := .question (.select _ _ 0)) (Except.ok (1 : Nat))
      (leads_request (r := .question (.select _ _ 0)) (Except.ok (0 : Nat)) (.done _))
  have hchoose : (Wizard.choose "What format do you want your config file to be in?"
      (FileFormat.javaScript.label, FileFormat.javaScript)
      [(FileFormat.yaml.label, .yaml), (FileFormat.json.label, .json)]).run.Leads [_]
        (.ok .yaml) :=
    leads_request (r := .question (.select _ _ 0)) (Except.ok (1 : Nat)) (.done _)
  have hformat : (Wizard.askFormat olderProject google).run.Leads _ (.ok ⟨.yaml, true⟩) :=
    hchoose.bind_ok (leads_findConflict_google.bind_ok (.done _))
  have hinstall : (Wizard.installAll (Packages.needed google [[]] true)).run.Leads [_, _]
      (.ok ()) :=
    leads_request (r := .host (.print _)) ()
      (leads_request (r := .packages (.install _)) (Except.ok ()) (.done _))
  have hsave : (do
      Wizard.hostAttempt (Wizard.save (olderProject.configPath ".yml") google .yaml)
      return olderProject.configPath ".yml" : Wizard.Session String).run.Leads [_] (.ok _) :=
    leads_request (r := .host (.write _ _)) (Except.ok ()) (.done _)
  have hprepare : (Wizard.prepare olderProject).run.Leads _
      (.ok ⟨{ config := google }, ⟨.yaml, true⟩, Packages.needed google [[]] true⟩) :=
    hdraft.bind_ok (hformat.bind_ok ((leads_googleLookup true).bind_ok (.done _)))
  have hfinish : (Wizard.finish olderProject false { config := google }).run.Leads []
      (.ok google) := .done _
  have hchanges : (do
      Wizard.installAll (Packages.needed google [[]] true)
      let config ← Wizard.finish olderProject false { config := google }
      Wizard.hostAttempt (Wizard.save (olderProject.configPath ".yml") config .yaml)
      return olderProject.configPath ".yml" : Wizard.Session String).run.Leads _ (.ok _) :=
    hinstall.bind_ok (hfinish.bind_ok hsave)
  rw [Wizard.setUp_of_hasPackageJson rfl]
  exact hprepare.bind_ok hchanges

theorem exists_serves_googleSteps : ∃ npm, Serves (serve olderProject) {} googleSteps npm := by
  have hidle : Npm.phase {} googlePackage = .idle := rfl
  have hturn : Turn olderProject googlePackage .idle _ _ := .starts 0
  obtain ⟨npm₁, hstart, hphase₁⟩ := exists_leads_of_turn hturn hidle
  obtain ⟨npm₂, hawait, hphase₂⟩ := exists_leads_of_turn (.finishes 0 (.code 0) []) hphase₁
  obtain ⟨npm₃, hstarted, hphase₃⟩ := exists_leads_of_turn
    (.started (nofun : Packages.Phase.known [] ≠ .idle)) hphase₂
  obtain ⟨npm₄, hknown, -⟩ := exists_leads_of_turn (.recalls []) hphase₃
  have hinstall : (Npm.answer olderProject (.install googlePackages) npm₄).Leads
      googleInstallation (Except.ok (), npm₄) := by
    refine .request (I := Host) (r := .print _) () ?_
    refine .request (I := Host) (r := .start _ .shared) (Except.ok (1 : Nat)) ?_
    exact .request (I := Host) (r := .wait 1) (Exit.code 0, []) (.done _)
  refine ⟨npm₄, ?_⟩
  -- the questions and the files
  iterate 4 refine .cons (leads_handOn_iff.mpr ⟨rfl, rfl⟩) ?_
  -- the look-ups, twice
  refine .cons (leads_onHost_iff.mpr ⟨_, hstart, rfl⟩) ?_
  refine .cons (leads_onHost_iff.mpr ⟨_, hawait, rfl⟩) ?_
  refine .cons (leads_onHost_iff.mpr ⟨_, hstarted, rfl⟩) ?_
  refine .cons (leads_onHost_iff.mpr ⟨_, hknown, rfl⟩) ?_
  -- the changes
  refine .cons (leads_handOn_iff.mpr ⟨rfl, rfl⟩) ?_
  refine .cons (leads_onHost_iff.mpr ⟨_, hinstall, rfl⟩) ?_
  exact .cons (leads_handOn_iff.mpr ⟨rfl, rfl⟩) (.nil npm₄)

theorem lookups_remembered_google :
    (∃ steps, threeLookups.Leads (steps.map Step.exchange)
        [.error (exitFailure (.code 1)), .ok [], .ok []] ∧
      twoRuns = steps.flatMap Step.taken ∧ ∀ package, Remembers olderProject package steps) ∧
    ∀ package, shows olderProject package (googleSteps.flatMap Step.taken) ≤ 1 := by
  obtain ⟨npm, hthree⟩ := exists_leads_threeLookups
  obtain ⟨npm', hserves⟩ := exists_serves_googleSteps
  have hsetUp := leads_throughWith_iff.mpr ⟨googleSteps, hserves, leads_googleSteps, rfl⟩
  exact ⟨(lookups_remembered olderProject).1 threeLookups twoRuns _ npm hthree,
    (lookups_remembered olderProject).2 false _ _ npm' hsetUp⟩

end CommandLine
end LintSetup
