import LintSetup.Proofs.Wizard.Course
import LintSetup.Proofs.Wizard.Lookups

/-!
# The version that is asked about

A set-up may ask whether the linter should be installed in the version that the configuration needs.
The range in that question is recovered from a list of packages, which is put together again, with or
without the linter, when the packages are installed.  `settled_setUp` says that question and
installation speak of the same entry, for every configuration and whoever answers, if the package
manager is `Steady` and names no peer that would pass for the linter.

* `AsksNoVersion`, `Quiet` --- the parts of the conversation in which the question is not asked, and
  those in which nothing is installed either.
* `exists_of_leads_askFormat` --- the question comes last of what is asked before the installation,
  and what it says was read off the list of packages with the linter.
* `exists_of_leads_supply` --- what is installed is what the look-ups then come to.
* `Settled` --- how question, answer and installation are related.
-/

namespace LintSetup.Wizard

open Dialogue hiding bind_assoc
open Packages (Peers HasLinter needed latest)

variable {α β : Type}

/-! ## Exchanges without a question about the version -/

/-- The question whether to install the linter in the version that a configuration needs. -/
def versionQuestion (c : Packages.Conflict) : Question := .confirm (conflictMessage c) true

/-- Exchanges among which the user is not asked about the version of the linter. -/
def AsksNoVersion (es : List (Exchange Wizard)) : Prop :=
  ∀ e ∈ es, ∀ c, e.asked ≠ .question (versionQuestion c)

theorem AsksNoVersion.append {es fs : List (Exchange Wizard)} (he : AsksNoVersion es)
    (hf : AsksNoVersion fs) : AsksNoVersion (es ++ fs) :=
  List.forall_mem_append.mpr ⟨he, hf⟩

theorem asksNoVersion_nil : AsksNoVersion [] := fun _ he => absurd he List.not_mem_nil

theorem asksNoVersion_onHost (hs : List (Exchange Host)) : AsksNoVersion (onHost hs) :=
  List.forall_mem_map.mpr fun _ _ _ heq => Request.noConfusion heq

theorem asksNoVersion_onPackages (ps : List (Exchange Packages.Manager)) :
    AsksNoVersion (onPackages ps) :=
  List.forall_mem_map.mpr fun _ _ _ heq => Request.noConfusion heq

theorem conflictMessage_eq (c : Packages.Conflict) :
    conflictMessage c = "It requires 'eslint@" ++ c.expected ++ "', but you are using 'eslint@" ++
      c.actual ++ "'.\n" ++ "  Do you want to install the proper ESLint?" := rfl

theorem head?_conflictMessage (c : Packages.Conflict) :
    (conflictMessage c).toList.head? = some 'I' := by
  rw [conflictMessage_eq]
  have hstart : "It requires 'eslint@".toList.head? = some 'I' := by decide
  generalize "It requires 'eslint@" = start at hstart ⊢
  simp only [String.toList_append, List.head?_append, hstart, Option.some_or]

theorem asksNoVersion_of_isDraftQuestion {es : List (Exchange Wizard)}
    (h : ∀ e ∈ es, Request.IsDraftQuestion e.asked) : AsksNoVersion es := by
  intro e he c heq
  obtain ⟨q, hq, hhead⟩ := h e he
  rw [heq] at hq
  obtain rfl := Request.question.inj hq
  exact hhead (head?_conflictMessage c)

theorem Installs.asksNoVersion {all : List String} {es : List (Exchange Wizard)}
    {result : Except Failure Unit} (h : Installs all es result) : AsksNoVersion es := by
  cases h with
  | nothing => exact asksNoVersion_nil
  | once =>
    exact (asksNoVersion_onHost [⟨.print (announcement all), ()⟩]).append
      (asksNoVersion_onPackages [⟨.install all, result⟩])

theorem Finishes.asksNoVersion {context : Context} {debug : Bool} {d : Draft}
    {es : List (Exchange Wizard)} {r : Except Error Config} (h : Finishes context debug d es r) :
    AsksNoVersion es := by
  cases h with
  | drafted => exact asksNoVersion_nil
  | @inspected _ hs outcome =>
    exact (asksNoVersion_onHost hs).append
      (asksNoVersion_onHost [⟨.print (outcome.summary ++ "\n"), ()⟩])
  | uninspected | unlinted => exact asksNoVersion_onHost _

/-- Exchanges among which the user is not asked about the version of the linter, and nothing is
installed. -/
def Quiet (es : List (Exchange Wizard)) : Prop := AsksNoVersion es ∧ installs es = []

theorem quiet_nil : Quiet [] := ⟨asksNoVersion_nil, rfl⟩

theorem Quiet.append {es fs : List (Exchange Wizard)} (he : Quiet es) (hf : Quiet fs) :
    Quiet (es ++ fs) :=
  ⟨he.1.append hf.1, by rw [installs_append, he.2, hf.2, List.append_nil]⟩

/-- A preparation installs nothing. -/
theorem AsksNoVersion.quiet {x : Session α} {es : List (Exchange Wizard)} {r : Except Error α}
    (hes : AsksNoVersion es) (hx : Prepares x) (h : x.run.Leads es r) : Quiet es :=
  ⟨hes, (changesNothing_of_isPreparation (hx es r h).1).1⟩

theorem Drafts.quiet {x : Session α} {es : List (Exchange Wizard)} {r : Except Error α}
    (hx : Drafts x) (h : x.run.Leads es r) : Quiet es :=
  (asksNoVersion_of_isDraftQuestion (hx es r h).1).quiet hx.prepares h

theorem quiet_of_leads_finish {context : Context} {debug : Bool} {d : Draft}
    {es : List (Exchange Wizard)} {r : Except Error Config}
    (h : (finish context debug d).run.Leads es r) : Quiet es := by
  have hfinishes := finishes_of_leads h
  exact ⟨hfinishes.asksNoVersion, hfinishes.changesNothing.1⟩

theorem quiet_of_leads_save {path : String} {config : Config} {format : FileFormat}
    {es : List (Exchange Wizard)} {r : Except Error String}
    (h : (hostAttempt (save path config format) >>= fun _ => (pure path : Session String)).run.Leads
      es r) : Quiet es := by
  obtain ⟨rendering, text, written, hrenders, rfl, rfl⟩ := exists_of_leads_save h
  have hrendering : Quiet (onHost rendering) :=
    ⟨asksNoVersion_onHost rendering, hrenders.changesNothing.1⟩
  exact hrendering.append ⟨asksNoVersion_onHost [⟨.write path text, written⟩], rfl⟩

/-! ## The version question and what is installed -/

/-- The look-ups and the installation for a configuration, with or without the linter. -/
def supply (config : Config) (wanted : Bool) : Session Unit := do
  let all ← packages (Packages.required config wanted)
  installAll all

/-- The part of a set-up that is about packages: the format is chosen, and with it whether the linter
is to be installed; then the packages that a configuration needs are installed. -/
def provide (context : Context) (config : Config) : Session FormatChoice := do
  let choice ← askFormat context config
  supply config choice.installLinter
  return choice

/-- A set-up drafts a configuration, provides its packages, and goes on to finish and save it. -/
theorem setUp_eq_provide {context : Context} (h : context.hasPackageJson = true) (debug : Bool) :
    setUp context debug = (do
      let d ← askDraft context.hasPackageJson
      let choice ← provide context d.config
      let config ← finish context debug d
      hostAttempt (save (context.configPath choice.format.extension) config choice.format)
      return context.configPath choice.format.extension) := by
  rw [setUp, h, if_neg (by decide)]
  simp only [provide, supply, bind_assoc, pure_bind]

/-- A conflict that is found was found in the list of the packages that the configuration needs. -/
theorem exists_of_leads_compare {config : Config} {actual : String} {es : List (Exchange Wizard)}
    {r : Except Error (Option Packages.Conflict)}
    (h : (packages (Packages.required config true) >>= fun all =>
      (pure (Packages.Conflict.of? actual all) : Session _)).run.Leads es r) :
    AsksNoVersion es ∧ ((∃ e, r = .error e) ∨ r = .ok none ∨
      ∃ c peers, r = .ok (some c) ∧ LookedUp config es peers ∧
        Packages.Conflict.of? actual (needed config peers true) = some c) := by
  obtain ⟨e, hfail, rfl⟩ | ⟨looking, all, after, hlook, hpure, rfl⟩ := leads_bind_except_iff.mp h
  · obtain ⟨ps, a, -, rfl, -⟩ := exists_of_leads_packages hfail
    exact ⟨asksNoVersion_onPackages ps, .inl ⟨e, rfl⟩⟩
  obtain ⟨rfl, rfl⟩ := leads_pure_except_iff.mp hpure
  obtain ⟨ps, f | all', hps, rfl, hall⟩ := exists_of_leads_packages hlook
  · cases hall
  obtain rfl := Except.ok.inj hall
  obtain ⟨peers, hlooked, rfl⟩ := exists_of_leads_required hps
  rw [List.append_nil]
  refine ⟨asksNoVersion_onPackages ps, .inr ?_⟩
  cases hc : Packages.Conflict.of? actual (needed config peers true) with
  | none => exact .inl rfl
  | some c => exact .inr ⟨c, peers, rfl, hlooked, hc⟩

/-- What the search for a conflict comes to: it fails, or it finds none, or it finds one in the list
of the packages that the configuration needs. -/
theorem exists_of_leads_findConflict {context : Context} {config : Config}
    {es : List (Exchange Wizard)} {r : Except Error (Option Packages.Conflict)}
    (h : (findConflict context config).run.Leads es r) :
    Quiet es ∧ ((∃ e, r = .error e) ∨ r = .ok none ∨
      ∃ c actual peers, r = .ok (some c) ∧ LookedUp config es peers ∧
        Packages.Conflict.of? actual (needed config peers true) = some c) := by
  suffices hsearch : AsksNoVersion es ∧ _ from
    ⟨hsearch.1.quiet (prepares_findConflict context config) h, hsearch.2⟩
  unfold findConflict at h
  split at h
  · obtain ⟨rfl, rfl⟩ := leads_pure_except_iff.mp h
    exact ⟨asksNoVersion_nil, .inr (.inl rfl)⟩
  obtain ⟨e, hfail, rfl⟩ | ⟨reading, files, searching, hread, h₁, rfl⟩ :=
    leads_bind_except_iff.mp h
  · obtain ⟨hs, a, -, rfl, hok⟩ := exists_of_leads_host hfail
    cases hok
  obtain ⟨hs, a, -, rfl, -⟩ := exists_of_leads_host hread
  have hreading := asksNoVersion_onHost hs
  -- the file may be unreadable, be no JSON, or state no range; only then are packages looked up
  split at h₁
  · obtain ⟨rfl, rfl⟩ := leads_pure_iff.mp h₁
    exact ⟨hreading.append asksNoVersion_nil, .inl ⟨_, rfl⟩⟩
  split at h₁
  · obtain ⟨rfl, rfl⟩ := leads_pure_iff.mp h₁
    exact ⟨hreading.append asksNoVersion_nil, .inl ⟨_, rfl⟩⟩
  · obtain ⟨rfl, rfl⟩ := leads_pure_except_iff.mp h₁
    exact ⟨hreading.append asksNoVersion_nil, .inr (.inl rfl)⟩
  · next actual _ =>
    obtain ⟨hsearching, hfail | hnone | ⟨c, peers, hsome, hlooked, hc⟩⟩ := exists_of_leads_compare h₁
    · exact ⟨hreading.append hsearching, .inl hfail⟩
    · exact ⟨hreading.append hsearching, .inr (.inl hnone)⟩
    · exact ⟨hreading.append hsearching, .inr (.inr ⟨c, actual, peers, hsome,
        hlooked.mono (List.subset_append_right _ _), hc⟩)⟩

/-- What the choice of a format comes to: either the user is not asked about the version, and then
the choice fails or the linter is to be installed; or the question comes last, and its answer says
whether the linter is to be installed. -/
theorem exists_of_leads_askFormat {context : Context} {config : Config}
    {es : List (Exchange Wizard)} {r : Except Error FormatChoice}
    (h : (askFormat context config).run.Leads es r) :
    (Quiet es ∧ ((∃ e, r = .error e) ∨ ∃ choice, r = .ok choice ∧ choice.installLinter = true)) ∨
    ∃ before c actual peers, ∃ answer : Except Failure Bool,
      es = before ++ [⟨.question (versionQuestion c), answer⟩] ∧ Quiet before ∧
        LookedUp config before peers ∧
        Packages.Conflict.of? actual (needed config peers true) = some c ∧
        r.map FormatChoice.installLinter = answer.mapError .failed := by
  unfold askFormat at h
  obtain ⟨e, hfail, rfl⟩ | ⟨choosing, format, rest, hchoose, h₁, rfl⟩ := leads_bind_except_iff.mp h
  · exact .inl ⟨(drafts_choose (by decide) _ _).quiet hfail, .inl ⟨e, rfl⟩⟩
  have hchoosing := (drafts_choose (by decide) _ _).quiet hchoose
  obtain ⟨e, hfail, rfl⟩ | ⟨finding, found, rest, hfind, h₂, rfl⟩ := leads_bind_except_iff.mp h₁
  · exact .inl ⟨hchoosing.append (exists_of_leads_findConflict hfail).1, .inl ⟨e, rfl⟩⟩
  obtain ⟨hfinding, ⟨e, he⟩ | hnone | ⟨c, actual, peers, hsome, hlooked, hc⟩⟩ :=
    exists_of_leads_findConflict hfind
  · cases he
  · obtain rfl := Except.ok.inj hnone
    obtain ⟨rfl, rfl⟩ := leads_pure_except_iff.mp h₂
    rw [List.append_nil]
    exact .inl ⟨hchoosing.append hfinding, .inr ⟨_, rfl, rfl⟩⟩
  · obtain rfl := Except.ok.inj hsome
    rw [← List.append_assoc]
    have hbefore := hchoosing.append hfinding
    have hlooked' := hlooked.mono (List.subset_append_right choosing finding)
    obtain ⟨e, hfail, rfl⟩ | ⟨asking, wanted, rest, hask, hpure, rfl⟩ :=
      leads_bind_except_iff.mp h₂
    · obtain ⟨answer, hanswer, he⟩ := leads_attempt_iff.mp hfail
      obtain rfl := leads_ask_iff.mp hanswer
      exact .inr ⟨_, c, actual, peers, answer, rfl, hbefore, hlooked', hc, he⟩
    · obtain ⟨answer, hanswer, hok⟩ := leads_attempt_iff.mp hask
      obtain rfl := leads_ask_iff.mp hanswer
      obtain ⟨rfl, rfl⟩ := leads_pure_except_iff.mp hpure
      rw [List.append_nil]
      exact .inr ⟨_, c, actual, peers, answer, rfl, hbefore, hlooked', hc, hok⟩

/-- What the look-ups and the installation for a configuration come to: the look-ups fail and nothing
is installed, or what is needed is installed. -/
theorem exists_of_leads_supply {config : Config} {wanted : Bool} {es : List (Exchange Wizard)}
    {r : Except Error Unit}
    (h : (supply config wanted).run.Leads es r) :
    AsksNoVersion es ∧
      ((installs es = [] ∧ ∃ ps f, (Packages.required config wanted).run.Leads ps (.error f) ∧
          es = onPackages ps ∧ r = .error (.failed f)) ∨
        ∃ peers, LookedUp config es peers ∧
          (needed config peers wanted ≠ [] → installs es = [needed config peers wanted])) := by
  have hquiet : ∀ {ps r}, (Packages.required config wanted).run.Leads ps r →
      installs (onPackages ps) = [] := fun hps =>
    (changesNothing_of_isPreparation (List.forall_mem_map.mpr (looksUp_required _ _ _ _ hps).1)).1
  obtain ⟨e, hfail, rfl⟩ | ⟨looking, all, installing, hlook, hinstall, rfl⟩ :=
    leads_bind_except_iff.mp h
  · obtain ⟨ps, f | all, hps, rfl, he⟩ := exists_of_leads_packages hfail
    · obtain rfl := Except.error.inj he
      exact ⟨asksNoVersion_onPackages ps, .inl ⟨hquiet hps, ps, f, hps, rfl, rfl⟩⟩
    · cases he
  obtain ⟨ps, f | all', hps, rfl, hall⟩ := exists_of_leads_packages hlook
  · cases hall
  obtain rfl := Except.ok.inj hall
  obtain ⟨peers, hlooked, rfl⟩ := exists_of_leads_required hps
  obtain ⟨result, hinstalls, -⟩ := exists_of_leads_installAll hinstall
  refine ⟨(asksNoVersion_onPackages ps).append hinstalls.asksNoVersion,
    .inr ⟨peers, hlooked.mono (List.subset_append_left _ _), fun hne => ?_⟩⟩
  rw [installs_append, hquiet hps, List.nil_append]
  generalize needed config peers wanted = all at hinstalls hne ⊢
  cases hinstalls with
  | nothing => exact absurd rfl hne
  | once => rfl

/-- What is installed for a configuration, and how it is related to the question about the version of
the linter. -/
inductive Settled (config : Config) (es : List (Exchange Wizard)) (r : Except Error α) : Prop
  /-- The question is not asked, and the conversation fails before anything is installed. -/
  | failed (quiet : Quiet es) (failure : ∃ e, r = .error e)
  /-- The question is not asked, and the list with the linter is installed. -/
  | unasked {peers : List Peers} {range : String} (noQuestion : AsksNoVersion es)
    (lookedUp : LookedUp config es peers)
    (linter : HasLinter range (needed config peers true) (needed config peers false))
    (installed : installs es = [needed config peers true])
  /-- The question is asked once, about the range that the linter has on the list. After a yes that
  list is installed, and after a no the list without the linter; without an answer, nothing. -/
  | asked {before after : List (Exchange Wizard)} {c : Packages.Conflict}
    {answer : Except Failure Bool} {peers : List Peers}
    (question : es = before ++ ⟨.question (versionQuestion c), answer⟩ :: after)
    (once : AsksNoVersion (before ++ after)) (lookedUp : LookedUp config es peers)
    (linter : HasLinter c.expected (needed config peers true) (needed config peers false))
    (answered : ∀ wanted, answer = .ok wanted → installs es = [needed config peers wanted])
    (unanswered : ∀ f, answer = .error f → installs es = [])

/-- What comes before and after does not matter if it is quiet. -/
theorem Settled.within {config : Config} {es : List (Exchange Wizard)} {r : Except Error α}
    {r' : Except Error β} (h : Settled config es r) {before after : List (Exchange Wizard)}
    (hbefore : Quiet before) (hafter : Quiet after)
    (hr : (∃ e, r = .error e) → ∃ e, r' = .error e) :
    Settled config (before ++ (es ++ after)) r' := by
  have hinstalls : installs (before ++ (es ++ after)) = installs es := by
    rw [installs_append, installs_append, hbefore.2, hafter.2, List.nil_append, List.append_nil]
  have hsub : es ⊆ before ++ (es ++ after) :=
    List.Subset.trans (List.subset_append_left es after) (List.subset_append_right before _)
  cases h with
  | failed quiet failure => exact .failed (hbefore.append (quiet.append hafter)) (hr failure)
  | unasked noQuestion lookedUp linter installed =>
    exact .unasked (hbefore.1.append (noQuestion.append hafter.1)) (lookedUp.mono hsub) linter
      (hinstalls.trans installed)
  | @asked first last c answer _ question once lookedUp linter answered unanswered =>
    obtain ⟨hfirst, hlast⟩ := List.forall_mem_append.mp once
    have hquestion : before ++ (es ++ after) =
        (before ++ first) ++ ⟨.question (versionQuestion c), answer⟩ :: (last ++ after) := by
      rw [question]
      simp only [List.append_assoc, List.cons_append]
    have honce : AsksNoVersion ((before ++ first) ++ (last ++ after)) :=
      (hbefore.1.append hfirst).append (AsksNoVersion.append hlast hafter.1)
    exact .asked hquestion honce (lookedUp.mono hsub) linter
      (fun wanted h => hinstalls.trans (answered wanted h))
      (fun f h => hinstalls.trans (unanswered f h))

theorem exists_hasLinter {config : Config} {es : List (Exchange Wizard)} {peers : List Peers}
    (hnames : NamesPackages es) (hlooked : LookedUp config es peers) :
    ∃ range, HasLinter range (needed config peers true) (needed config peers false) := by
  refine Packages.exists_hasLinter config fun found hfound => ?_
  obtain ⟨package, hanswer⟩ := hlooked.exists_of_mem hfound
  exact hnames _ _ hanswer

/-- Where the question is not asked, what is needed with the linter is installed. -/
theorem settled_of_unasked {config : Config} {choosing supplying : List (Exchange Wizard)}
    {r : Except Error Unit} (hnames : NamesPackages (choosing ++ supplying)) (hquiet : Quiet choosing)
    (h : (supply config true).run.Leads supplying r) :
    Settled config (choosing ++ supplying) r := by
  obtain ⟨hunasked, ⟨hnothing, ps, f, -, rfl, rfl⟩ | ⟨peers, hlooked, hinstalled⟩⟩ :=
    exists_of_leads_supply h
  · exact .failed (hquiet.append ⟨hunasked, hnothing⟩) ⟨_, rfl⟩
  · have hlooked' := hlooked.mono (List.subset_append_right choosing supplying)
    obtain ⟨range, hlinter⟩ := exists_hasLinter hnames hlooked'
    refine .unasked (hquiet.1.append hunasked) hlooked' hlinter ?_
    rw [installs_append, hquiet.2, hinstalled hlinter.ne_nil, List.nil_append]

/-- Where the question is answered, the packages are looked up a second time, and what is installed
belongs to the list that the question is about. -/
theorem settled_of_answer {config : Config} {before supplying : List (Exchange Wizard)}
    {c : Packages.Conflict} {actual : String} {wanted : Bool} {peers : List Peers}
    {r : Except Error Unit}
    (hsteady : Steady (before ++ ⟨.question (versionQuestion c), Except.ok wanted⟩ :: supplying))
    (hnames : NamesPackages (before ++ ⟨.question (versionQuestion c), Except.ok wanted⟩ :: supplying))
    (hquiet : Quiet before) (hlooked : LookedUp config before peers)
    (hc : Packages.Conflict.of? actual (needed config peers true) = some c)
    (h : (supply config wanted).run.Leads supplying r) :
    Settled config (before ++ ⟨.question (versionQuestion c), Except.ok wanted⟩ :: supplying) r := by
  obtain ⟨hunasked, hsupplied⟩ := exists_of_leads_supply h
  have hlooked' := hlooked.mono (List.subset_append_left before
    (⟨.question (versionQuestion c), Except.ok wanted⟩ :: supplying))
  have hlater : supplying ⊆
      before ++ ⟨.question (versionQuestion c), Except.ok wanted⟩ :: supplying := fun e he =>
    List.mem_append_right before (List.mem_cons_of_mem _ he)
  obtain ⟨range, hlinter⟩ := exists_hasLinter hnames hlooked'
  obtain ⟨rfl, hvalid⟩ := hlinter.expected_of_conflict hc
  have hpackages := hlinter.packages_ne_nil hlooked.found.length_eq.symm hvalid
  have hinstalled : installs supplying = [needed config peers wanted] := by
    obtain ⟨-, ps, f, hps, rfl, -⟩ | ⟨others, hothers, hinstalled⟩ := hsupplied
    · cases hsteady.required_eq hlooked' hps hlater
    · obtain rfl := hsteady.peers_eq hlooked' (hothers.mono hlater)
      exact hinstalled (Packages.needed_ne_nil hpackages peers wanted)
  refine .asked rfl (hquiet.1.append hunasked) hlooked' hlinter ?_ fun f hf => by cases hf
  rintro wanted' hwanted
  obtain rfl := Except.ok.inj hwanted
  rw [installs_append, hquiet.2, List.nil_append, ← hinstalled]
  rfl

/-- The result matters only where the conversation fails. -/
theorem Settled.of_result {config : Config} {es : List (Exchange Wizard)} {r : Except Error α}
    {r' : Except Error β} (h : Settled config es r)
    (hr : (∃ e, r = .error e) → ∃ e, r' = .error e) : Settled config es r' := by
  simpa using h.within quiet_nil quiet_nil hr

theorem settled_provide {context : Context} {config : Config} {es : List (Exchange Wizard)}
    {r : Except Error FormatChoice} (hsteady : Steady es) (hnames : NamesPackages es)
    (h : (provide context config).run.Leads es r) : Settled config es r := by
  unfold provide at h
  obtain ⟨e, hfail, rfl⟩ | ⟨choosing, choice, rest, hchoose, h₁, rfl⟩ := leads_bind_except_iff.mp h
  · obtain ⟨hquiet, -⟩ | ⟨before, c, actual, peers, answer, rfl, hbefore, hlooked, hc, hanswer⟩ :=
      exists_of_leads_askFormat hfail
    · exact .failed hquiet ⟨e, rfl⟩
    · have hlooked' := hlooked.mono (List.subset_append_left before
        [⟨.question (versionQuestion c), answer⟩])
      obtain ⟨range, hlinter⟩ := exists_hasLinter hnames hlooked'
      obtain ⟨rfl, -⟩ := hlinter.expected_of_conflict hc
      refine .asked rfl (hbefore.1.append asksNoVersion_nil) hlooked' hlinter ?_ fun f hf => ?_
      · rintro wanted rfl
        cases hanswer
      · rw [installs_append, hbefore.2, List.nil_append]
        rfl
  obtain ⟨r', hsupply, hr⟩ : ∃ r', (supply config choice.installLinter).run.Leads rest r' ∧
      ((∃ e, r' = .error e) → ∃ e, r = .error e) := by
    obtain ⟨e, hfail, rfl⟩ | ⟨supplying, done, after, hsupply, hpure, rfl⟩ :=
      leads_bind_except_iff.mp h₁
    · exact ⟨.error e, hfail, fun _ => ⟨e, rfl⟩⟩
    · obtain ⟨rfl, rfl⟩ := leads_pure_except_iff.mp hpure
      rw [List.append_nil]
      exact ⟨.ok done, hsupply, fun ⟨e, he⟩ => by cases he⟩
  obtain ⟨hquiet, ⟨e, he⟩ | ⟨choice', hchoice, hwanted⟩⟩ |
    ⟨before, c, actual, peers, answer, rfl, hbefore, hlooked, hc, hanswer⟩ :=
      exists_of_leads_askFormat hchoose
  · cases he
  · obtain rfl := Except.ok.inj hchoice
    rw [hwanted] at hsupply
    exact (settled_of_unasked hnames hquiet hsupply).of_result hr
  · obtain rfl : answer = .ok choice.installLinter := by
      cases answer with
      | error f => cases hanswer
      | ok wanted => rw [Except.ok.inj hanswer]
    rw [List.append_assoc, List.singleton_append] at hsteady hnames ⊢
    exact (settled_of_answer hsteady hnames hbefore hlooked hc hsupply).of_result hr

/-- **The version that is asked about is the one that is installed.**  Let the package manager give
the same answer whenever the same package is looked up, and let it name no peer that would pass for
the linter.  Then, for every configuration, what is installed is `Settled`: where the user is asked
about a range of the linter, that range stands on the list that a yes installs, as its only entry for
the linter, and a no installs the same list without that entry; where the user is not asked, the list
that is installed has one entry for the linter.  A set-up does this with the configuration that it
drafts, or fails before anything is installed. -/
theorem settled_setUp (context : Context) (debug : Bool) {es : List (Exchange Wizard)}
    (hsteady : Steady es) (hnames : NamesPackages es) :
    (∀ config r, (provide context config).run.Leads es r → Settled config es r) ∧
    ∀ r, (setUp context debug).run.Leads es r →
      (Quiet es ∧ ∃ e, r = .error e) ∨
      ∃ drafting d rest, (askDraft context.hasPackageJson).run.Leads drafting (.ok d) ∧
        es = drafting ++ rest ∧ Settled d.config es r := by
  refine ⟨fun config r h => settled_provide hsteady hnames h, fun r h => ?_⟩
  cases hjson : context.hasPackageJson with
  | false =>
    rw [setUp_of_not_hasPackageJson hjson] at h
    obtain ⟨rfl, rfl⟩ := leads_pure_iff.mp h
    exact .inl ⟨quiet_nil, _, rfl⟩
  | true =>
    rw [setUp_eq_provide hjson, hjson] at h
    obtain ⟨e, hfail, rfl⟩ | ⟨drafting, d, rest, hdraft, h₁, rfl⟩ := leads_bind_except_iff.mp h
    · exact .inl ⟨(drafts_askDraft _).quiet hfail, e, rfl⟩
    have hdrafting := (drafts_askDraft _).quiet hdraft
    refine .inr ⟨drafting, d, rest, hdraft, rfl, ?_⟩
    obtain ⟨e, hfail, rfl⟩ | ⟨providing, choice, rest, hprovide, h₂, rfl⟩ :=
      leads_bind_except_iff.mp h₁
    · have hsub := List.subset_append_right drafting rest
      have hsettled := settled_provide (hsteady.mono hsub) (hnames.mono hsub) hfail
      rw [← List.append_nil rest]
      exact hsettled.within hdrafting quiet_nil fun _ => ⟨e, rfl⟩
    have hsub : providing ⊆ drafting ++ (providing ++ rest) :=
      List.Subset.trans (List.subset_append_left _ _) (List.subset_append_right _ _)
    have hsettled := settled_provide (hsteady.mono hsub) (hnames.mono hsub) hprovide
    have hrest : Quiet rest := by
      obtain ⟨e, hfail, rfl⟩ | ⟨finishing, config, rest, hfinish, hsave, rfl⟩ :=
        leads_bind_except_iff.mp h₂
      · exact quiet_of_leads_finish hfail
      · exact (quiet_of_leads_finish hfinish).append (quiet_of_leads_save hsave)
    refine hsettled.within hdrafting hrest ?_
    rintro ⟨e, he⟩
    cases he

/-! ## A conversation in which the question is asked -/

/-- The `package.json` of a project that works with the third version of the linter. -/
def olderJson : String := "\x7b\"devDependencies\":\x7b\"eslint\":\"3\"\x7d\x7d"

/-- A disk with nothing but this project on it. -/
def olderDisk : Node := .dir [("package.json", .file olderJson.toUTF8.toList false)]

/-- The project on that disk. -/
def olderProject : Context := { directory := "/", packageJson := some "/package.json" }

/-- A configuration with one base. -/
def airbnbBase : Config := ⟨[("extends", .str "airbnb-base")]⟩

/-- The fourth version of the linter as a peer. -/
def newerPeers : Peers := [("eslint", .str "4")]

/-- The look-ups for the configuration. -/
def airbnbLookups : List (Exchange Wizard) :=
  [⟨.packages (.startLookup "eslint-config-airbnb-base@latest"), Except.ok ()⟩,
    ⟨.packages (.awaitLookup "eslint-config-airbnb-base@latest"), Except.ok newerPeers⟩]

/-- The conversation in which the user agrees to a newer linter. -/
def upgrade : List (Exchange Wizard) :=
  [⟨.question (.select "What format do you want your config file to be in?"
      ["JavaScript", "YAML", "JSON"] 0), (Except.ok 0 : Except Failure Nat)⟩] ++
    (⟨.host .files, olderDisk⟩ :: airbnbLookups) ++
    [⟨.question (versionQuestion ⟨"4", "3"⟩), (Except.ok true : Except Failure Bool)⟩] ++
    airbnbLookups ++
    [⟨.host (.print (announcement ["eslint-config-airbnb-base@latest", "eslint@4"])), ()⟩,
      ⟨.packages (.install ["eslint-config-airbnb-base@latest", "eslint@4"]),
        (Except.ok () : Except Failure Unit)⟩]

theorem leads_request {r : Request} (answer : r.Response) {next : r.Response → Dialogue Wizard α}
    {es : List (Exchange Wizard)} {a : α} (h : (next answer).Leads es a) :
    (Dialogue.request (I := Wizard) r next).Leads (⟨r, answer⟩ :: es) a :=
  @Leads.request Wizard α r next answer es a h

theorem leads_airbnbLookups (wanted : Bool) :
    (packages (Packages.required airbnbBase wanted)).run.Leads airbnbLookups
      (.ok (needed airbnbBase [newerPeers] wanted)) :=
  leads_request (r := .packages (.startLookup "eslint-config-airbnb-base@latest")) (Except.ok ())
    (leads_request (r := .packages (.awaitLookup "eslint-config-airbnb-base@latest"))
      (Except.ok newerPeers) (.done _))

theorem readText_olderDisk : olderDisk.readText "/package.json" = .ok olderJson := by
  have hsteps : Path.steps "/package.json" = ["", "package.json"] := by decide
  have hbytes : olderDisk.readBytes "/package.json" = .ok olderJson.toUTF8.toList := by
    simp [Node.readBytes, Node.lookup, Node.resolve, hsteps, olderDisk, Node.walkSteps, Node.at?,
      Node.entry?, Members.get?]
  have htext : Text.decode? olderJson.toUTF8.toList = some olderJson := by decide +kernel
  simp only [Node.readText, hbytes, htext]

theorem localRange?_olderJson :
    Packages.localRange? "/package.json" olderJson = .ok (some "3") := by
  have hread : (Packages.localRange? "/package.json" olderJson).toOption = some (some "3") := by
    decide +kernel
  revert hread
  cases Packages.localRange? "/package.json" olderJson with
  | error f =>
    intro hread
    cases hread
  | ok range => exact fun hread => congrArg Except.ok (Option.some.inj hread)

theorem conflict_airbnbBase :
    Packages.Conflict.of? "3" (needed airbnbBase [newerPeers] true) = some ⟨"4", "3"⟩ := by
  have hdemanded : Packages.demandedRange? (needed airbnbBase [newerPeers] true) = some "4" := by
    decide +kernel
  have hapart : Range.textsIntersect "3" "4" = false := by decide +kernel
  rw [Packages.Conflict.of?, hdemanded, Option.bind_some, hapart]
  rfl

theorem leads_findConflict_olderProject :
    (findConflict olderProject airbnbBase).run.Leads
      ([⟨.host .files, olderDisk⟩] ++ (airbnbLookups ++ [])) (.ok (some ⟨"4", "3"⟩)) := by
  unfold findConflict
  refine Leads.bind_ok (leads_request (r := .host .files) olderDisk (.done _)) ?_
  simp only [readText_olderDisk, localRange?_olderJson]
  refine Leads.bind_ok (leads_airbnbLookups true) ?_
  rw [conflict_airbnbBase]
  exact .done _

theorem leads_upgrade :
    (provide olderProject airbnbBase).run.Leads upgrade (.ok ⟨.javaScript, true⟩) := by
  have hchoose : (choose "What format do you want your config file to be in?"
      (FileFormat.javaScript.label, FileFormat.javaScript)
      [(FileFormat.yaml.label, .yaml), (FileFormat.json.label, .json)]).run.Leads [_]
        (.ok .javaScript) :=
    leads_request (r := .question (.select _ _ 0)) (Except.ok (0 : Nat)) (.done _)
  have hconfirm : (confirm (conflictMessage ⟨"4", "3"⟩) true).run.Leads [_] (.ok true) :=
    leads_request (r := .question (versionQuestion _)) (Except.ok true) (.done _)
  have hformat : (askFormat olderProject airbnbBase).run.Leads _ (.ok ⟨.javaScript, true⟩) :=
    hchoose.bind_ok (leads_findConflict_olderProject.bind_ok (hconfirm.bind_ok (.done _)))
  have hinstall : (installAll (needed airbnbBase [newerPeers] true)).run.Leads [_, _] (.ok ()) :=
    leads_request (r := .host (.print _)) ()
      (leads_request (r := .packages (.install _)) (Except.ok ()) (.done _))
  have hsupply : (supply airbnbBase true).run.Leads _ (.ok ()) :=
    (leads_airbnbLookups true).bind_ok hinstall
  have hprovide : (provide olderProject airbnbBase).run.Leads _ (.ok ⟨.javaScript, true⟩) :=
    hformat.bind_ok (hsupply.bind_ok (.done _))
  exact hprovide

theorem settled_setUp_upgrade :
    installs upgrade = [["eslint-config-airbnb-base@latest", "eslint@4"]] ∧
      Settled airbnbBase upgrade (Except.ok ⟨.javaScript, true⟩ : Except Error FormatChoice) := by
  have hanswers : ∀ e ∈ upgrade, AnswersBy (fun _ => .ok ()) (fun _ => .ok newerPeers) e := by
    have hlookups : ∀ e ∈ airbnbLookups,
        AnswersBy (fun _ => .ok ()) (fun _ => .ok newerPeers) e :=
      List.forall_mem_cons.mpr ⟨rfl, List.forall_mem_singleton.mpr rfl⟩
    simp only [upgrade, List.forall_mem_append, List.forall_mem_cons]
    exact ⟨⟨⟨⟨⟨trivial, by simp⟩, trivial, hlookups⟩, trivial, by simp⟩, hlookups⟩,
      trivial, trivial, by simp⟩
  have hnames : NamesPackages upgrade := by
    intro package peers hanswer name hname
    obtain rfl : peers = newerPeers := Except.ok.inj (hanswers _ hanswer)
    obtain rfl := List.mem_singleton.mp hname
    decide
  have hboth := settled_setUp olderProject false (steady_of_answersBy hanswers) hnames
  exact ⟨rfl, hboth.1 _ _ leads_upgrade⟩

end LintSetup.Wizard
