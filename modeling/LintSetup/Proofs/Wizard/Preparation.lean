import LintSetup.Proofs.Dialogue
import LintSetup.Wizard.Setup

/-!
# What comes before a change

A set-up begins with questions and look-ups, and changes nothing until all of them have succeeded.

The conversation has three partners, and most of its parts are conversations with one of them.  The
first section says what a branch of the whole is where such a part is gone through.  The second one
goes through the questions and the look-ups and shows that each of them `Prepares`: it changes
nothing, and it comes to a result only if nothing on the way has failed.  Together they are
`prepare`, whose result is a `Plan`, and `Prepared` says what is known once there is one.
-/

namespace LintSetup.Wizard

open Dialogue hiding bind_assoc

variable {α β σ : Type}

/-! ## Parts of the conversation -/

/-- Exchanges with the machine as they stand in the conversation. -/
def onHost (es : List (Exchange Host)) : List (Exchange Wizard) :=
  es.map fun e => ⟨.host e.asked, e.answer⟩

@[simp] theorem onHost_append (hs hs' : List (Exchange Host)) :
    onHost (hs ++ hs') = onHost hs ++ onHost hs' :=
  List.map_append

/-- Exchanges with the package manager as they stand in the conversation. -/
def onPackages (es : List (Exchange Packages.Manager)) : List (Exchange Wizard) :=
  es.map fun e => ⟨.packages e.asked, e.answer⟩

theorem run_attempt (d : Dialogue Wizard (Except Failure α)) :
    (attempt d).run = d >>= fun a => pure (a.mapError .failed) := by
  induction d with
  | done a => cases a <;> rfl
  | request r next ih => exact congrArg (Dialogue.request r) (funext ih)

theorem leads_attempt_iff {d : Dialogue Wizard (Except Failure α)} {es : List (Exchange Wizard)}
    {r : Except Error α} :
    (attempt d).run.Leads es r ↔ ∃ a, d.Leads es a ∧ r = a.mapError .failed := by
  rw [run_attempt, leads_bind_iff]
  constructor
  · rintro ⟨before, a, after, hd, hpure, rfl⟩
    obtain ⟨rfl, rfl⟩ := leads_pure_iff.mp hpure
    exact ⟨a, by rwa [List.append_nil], rfl⟩
  · rintro ⟨a, hd, rfl⟩
    exact ⟨es, a, [], hd, leads_pure_iff.mpr ⟨rfl, rfl⟩, (List.append_nil es).symm⟩

theorem exists_of_leads_onHost {d : Host.Session α} {es : List (Exchange Wizard)} {a : α}
    (h : (d.through fun r => Dialogue.ask (I := Wizard) (.host r)).Leads es a) :
    ∃ hs, d.Leads hs a ∧ es = onHost hs :=
  exists_of_leads_through_one (f := fun e : Exchange Host =>
      (⟨.host e.asked, e.answer⟩ : Exchange Wizard))
    (fun _ _ _ h => leads_ask_iff.mp h) h

theorem exists_of_leads_host {d : Host.Session α} {es : List (Exchange Wizard)} {r : Except Error α}
    (h : (host d).run.Leads es r) : ∃ hs a, d.Leads hs a ∧ es = onHost hs ∧ r = .ok a := by
  have hrun : (host d).run = (d.through fun r => Dialogue.ask (I := Wizard) (.host r)) >>= fun a =>
      pure (.ok a) := rfl
  rw [hrun, leads_bind_iff] at h
  obtain ⟨before, a, after, hd, hpure, rfl⟩ := h
  obtain ⟨rfl, rfl⟩ := leads_pure_iff.mp hpure
  obtain ⟨hs, hhost, rfl⟩ := exists_of_leads_onHost hd
  exact ⟨hs, a, hhost, List.append_nil _, rfl⟩

/-- What the user is told comes before anything that follows. -/
theorem exists_of_leads_say_bind {line : String} {f : Unit → Session α}
    {es : List (Exchange Wizard)} {r : Except Error α}
    (h : (host (Host.say line) >>= f).run.Leads es r) :
    ∃ after, (f ()).run.Leads after r ∧ es = ⟨.host (.print (line ++ "\n")), ()⟩ :: after := by
  obtain ⟨e, hfail, rfl⟩ | ⟨said, a, after, hsay, hafter, rfl⟩ := leads_bind_except_iff.mp h
  · obtain ⟨hs, a, hleads, rfl, hok⟩ := exists_of_leads_host hfail
    cases hok
  · obtain ⟨hs, a', hleads, rfl, hok⟩ := exists_of_leads_host hsay
    obtain rfl := leads_ask_iff.mp hleads
    exact ⟨after, hafter, rfl⟩

theorem exists_of_leads_hostAttempt {d : Host.Session (Except Failure α)}
    {es : List (Exchange Wizard)} {r : Except Error α} (h : (hostAttempt d).run.Leads es r) :
    ∃ hs a, d.Leads hs a ∧ es = onHost hs ∧ r = a.mapError .failed := by
  obtain ⟨a, hd, rfl⟩ := leads_attempt_iff.mp h
  obtain ⟨hs, hhost, rfl⟩ := exists_of_leads_onHost hd
  exact ⟨hs, a, hhost, rfl, rfl⟩

/-- A part that may fail, and that settles what the result is otherwise. -/
theorem exists_of_leads_hostAttempt_pure {d : Host.Session (Except Failure α)} {b : β}
    {es : List (Exchange Wizard)} {r : Except Error β}
    (h : (hostAttempt d >>= fun _ => (pure b : Session β)).run.Leads es r) :
    ∃ hs a, d.Leads hs a ∧ es = onHost hs ∧ r = (a.mapError .failed).map fun _ => b := by
  obtain ⟨e, hfail, rfl⟩ | ⟨during, a, after, hdone, hpure, rfl⟩ := leads_bind_except_iff.mp h
  · obtain ⟨hs, f | a, hleads, rfl, ha⟩ := exists_of_leads_hostAttempt hfail
    · exact ⟨hs, .error f, hleads, rfl, by rw [← ha]; rfl⟩
    · cases ha
  · obtain ⟨rfl, rfl⟩ := leads_pure_except_iff.mp hpure
    obtain ⟨hs, f | a, hleads, rfl, ha⟩ := exists_of_leads_hostAttempt hdone
    · cases ha
    · exact ⟨hs, .ok a, hleads, List.append_nil _, rfl⟩

theorem exists_of_leads_packages {d : Packages.Session α}
    {es : List (Exchange Wizard)} {r : Except Error α} (h : (packages d).run.Leads es r) :
    ∃ ps a, d.run.Leads ps a ∧ es = onPackages ps ∧ r = a.mapError .failed := by
  obtain ⟨a, hd, rfl⟩ := leads_attempt_iff.mp h
  obtain ⟨ps, hpackages, rfl⟩ : ∃ ps, d.run.Leads ps a ∧ es = onPackages ps :=
    exists_of_leads_through_one (f := fun e : Exchange Packages.Manager =>
      (⟨.packages e.asked, e.answer⟩ : Exchange Wizard))
      (fun _ _ _ h => leads_ask_iff.mp h) hd
  exact ⟨ps, a, hpackages, rfl, rfl⟩

/-! ## Asking and looking up -/

/-- What is asked before anything is changed: questions, look-ups and what files there are. -/
def Request.IsPreparation : Request → Prop
  | .question _ | .packages (.startLookup _) | .packages (.awaitLookup _) | .host .files => True
  | .packages (.install _) | .host _ => False

/-- Whether a question was answered and a look-up did not fail. -/
def Answered : Exchange Wizard → Prop
  | ⟨.question _, answer⟩ => ∃ a, answer = Except.ok a
  | ⟨.packages (.startLookup _), answer⟩ => answer = Except.ok ()
  | ⟨.packages (.awaitLookup _), answer⟩ => ∃ peers, answer = Except.ok peers
  | ⟨.packages (.install _), _⟩ | ⟨.host _, _⟩ => True

/-- A part of the conversation that changes nothing, and that comes to a result only if all
questions were answered and no look-up failed. -/
abbrev Prepares (x : Session α) : Prop := Proceeds Request.IsPreparation Answered x

theorem prepares_ask (q : Question) : Prepares (ask q) := by
  intro es r h
  obtain ⟨answer, hask, rfl⟩ := leads_attempt_iff.mp h
  obtain rfl := leads_ask_iff.mp hask
  refine ⟨List.forall_mem_singleton.mpr trivial, fun a ha => List.forall_mem_singleton.mpr ?_⟩
  rcases (answer : Except Failure q.Answer) with f | b
  · cases ha
  · exact ⟨b, rfl⟩

theorem prepares_confirm (message : String) (standard : Bool) :
    Prepares (confirm message standard) :=
  prepares_ask _

/-- A question other than the one about the version of the linter, by how it begins. -/
def Request.IsDraftQuestion (r : Request) : Prop :=
  ∃ q, r = .question q ∧ q.message.toList.head? ≠ some 'I'

/-- A part of the conversation in which a draft is made: there are only questions, and none of them
is about the version of the linter. -/
abbrev Drafts (x : Session α) : Prop := Proceeds Request.IsDraftQuestion Answered x

theorem Drafts.prepares {x : Session α} (h : Drafts x) : Prepares x := by
  refine h.mono fun r => ?_
  rintro ⟨q, rfl, -⟩
  exact trivial

theorem drafts_ask (q : Question) (h : q.message.toList.head? ≠ some 'I') : Drafts (ask q) := by
  intro es r hleads
  refine ⟨?_, (prepares_ask q es r hleads).2⟩
  obtain ⟨answer, hask, -⟩ := leads_attempt_iff.mp hleads
  obtain rfl := leads_ask_iff.mp hask
  exact List.forall_mem_singleton.mpr ⟨q, rfl, h⟩

theorem drafts_choose {message : String} (h : message.toList.head? ≠ some 'I')
    (first : String × α) (others : List (String × α)) : Drafts (choose message first others) :=
  (drafts_ask (.select message _ 0) h).bind fun _ => proceeds_pure _

theorem drafts_confirm {message : String} (h : message.toList.head? ≠ some 'I') (standard : Bool) :
    Drafts (confirm message standard) :=
  drafts_ask (.confirm message standard) h

theorem drafts_confirmIf {message : String} (h : message.toList.head? ≠ some 'I')
    (arises : Bool) : Drafts (confirmIf arises message) := by
  cases arises
  · exact proceeds_pure false
  · exact drafts_confirm h _

theorem drafts_askDialect (packageJson : Bool) : Drafts (askDialect packageJson) :=
  (drafts_confirm (by decide) _).bind fun _ => (drafts_confirmIf (by decide) _).bind fun _ =>
    ((drafts_ask _ (by decide)).bind fun _ => proceeds_pure _).bind fun _ =>
      (drafts_confirmIf (by decide) _).bind fun _ => (drafts_confirm (by decide) _).bind fun _ =>
        (drafts_confirmIf (by decide) _).bind fun _ => proceeds_pure _

theorem drafts_askStyle : Drafts askStyle :=
  (drafts_choose (by decide) _ _).bind fun _ => (drafts_choose (by decide) _ _).bind fun _ =>
    (drafts_choose (by decide) _ _).bind fun _ => (drafts_confirm (by decide) _).bind fun _ =>
      proceeds_pure _

theorem drafts_askGuide : Drafts askGuide := by
  refine (drafts_choose (by decide) _ _).bind fun guide => ?_
  cases guide with
  | airbnb => exact (drafts_confirm (by decide) _).bind fun _ => proceeds_pure _
  | google | standard => exact proceeds_pure _

theorem drafts_askDraft (packageJson : Bool) : Drafts (askDraft packageJson) := by
  refine (drafts_choose (by decide) _ _).bind fun method => ?_
  cases method with
  | style =>
    exact (drafts_askDialect _).bind fun _ => drafts_askStyle.bind fun _ => proceeds_pure _
  | guide => exact drafts_askGuide.bind fun _ => proceeds_pure _
  | files =>
    exact ((drafts_ask _ (by decide)).bind fun _ => proceeds_pure _).bind fun _ =>
      (drafts_askDialect _).bind fun _ => proceeds_pure _

/-- A conversation with the package manager that is a preparation as part of the set-up. -/
abbrev LooksUp (d : Packages.Session α) : Prop :=
  Proceeds (fun r => (Request.packages r).IsPreparation)
    (fun e => Answered ⟨.packages e.asked, e.answer⟩) d

theorem looksUp_startLookup (package : String) : LooksUp (Packages.startLookup package) := by
  intro es r h
  obtain rfl := leads_ask_iff.mp h
  refine ⟨List.forall_mem_singleton.mpr trivial, ?_⟩
  rintro a rfl
  exact List.forall_mem_singleton.mpr rfl

theorem looksUp_awaitLookup (package : String) : LooksUp (Packages.awaitLookup package) := by
  intro es r h
  obtain rfl := leads_ask_iff.mp h
  refine ⟨List.forall_mem_singleton.mpr trivial, ?_⟩
  rintro a rfl
  exact List.forall_mem_singleton.mpr ⟨a, rfl⟩

theorem looksUp_startAll (names : List String) : LooksUp (Packages.startAll names) := by
  induction names with
  | nil => exact proceeds_pure ()
  | cons name rest ih => exact (looksUp_startLookup name).bind fun _ => ih

theorem looksUp_awaitAll (names : List String) : LooksUp (Packages.awaitAll names) := by
  induction names with
  | nil => exact proceeds_pure []
  | cons name rest ih =>
    exact (looksUp_awaitLookup name).bind fun _ => ih.bind fun _ => proceeds_pure _

theorem looksUp_required (config : Config) (withLinter : Bool) :
    LooksUp (Packages.required config withLinter) :=
  ((looksUp_startAll _).bind fun _ => looksUp_awaitAll _).bind fun _ => proceeds_pure _

theorem LooksUp.packages {d : Packages.Session α} (hd : LooksUp d) : Prepares (packages d) := by
  intro es r h
  obtain ⟨ps, a, hleads, rfl, rfl⟩ := exists_of_leads_packages h
  obtain ⟨hasked, hanswered⟩ := hd ps a hleads
  refine ⟨List.forall_mem_map.mpr hasked, fun b hb => List.forall_mem_map.mpr ?_⟩
  rcases a with f | c
  · cases hb
  · exact hanswered c rfl

/-- What is in the first of two related lists is related to something. -/
theorem exists_of_forall₂ {R : α → β → Prop} {as : List α} {bs : List β}
    (h : List.Forall₂ R as bs) {a : α} (ha : a ∈ as) : ∃ b, R a b := by
  have hboth : List.Forall₂ (fun a b => (∃ b, R a b) ∧ R a b) as bs :=
    h.imp fun _ b hab => ⟨⟨b, hab⟩, hab⟩
  exact ((List.forall₂_and_left as bs).mp hboth).1 a ha

/-- All look-ups that are waited for succeed if the conversation comes to a result. -/
theorem forall₂_of_leads_awaitAll {names : List String} {ps : List (Exchange Packages.Manager)}
    {all : List Packages.Peers} (h : (Packages.awaitAll names).run.Leads ps (.ok all)) :
    List.Forall₂ (fun name peers => ⟨.awaitLookup name, Except.ok peers⟩ ∈ ps) names all := by
  induction names generalizing ps all with
  | nil =>
    obtain ⟨-, hall⟩ := leads_pure_except_iff.mp h
    obtain rfl := Except.ok.inj hall
    exact .nil
  | cons name rest ih =>
    obtain ⟨before, peers, after, hname, hrest, rfl⟩ := exists_of_leads_bind_ok h
    obtain rfl := leads_ask_iff.mp hname
    obtain ⟨before, others, after, hothers, hpure, rfl⟩ := exists_of_leads_bind_ok hrest
    obtain ⟨-, hall⟩ := leads_pure_except_iff.mp hpure
    obtain rfl := Except.ok.inj hall
    exact .cons List.mem_cons_self ((ih hothers).imp fun _ _ hmem =>
      List.mem_append_right _ (List.mem_append_left _ hmem))

/-- A list of required packages means that every package that the configuration names was looked up.
-/
theorem exists_mem_of_leads_required {config : Config} {withLinter : Bool}
    {ps : List (Exchange Packages.Manager)} {all : List String}
    (h : (Packages.required config withLinter).run.Leads ps (.ok all)) :
    ∀ name ∈ config.packages,
      ∃ peers, ⟨.awaitLookup (Packages.latest name), Except.ok peers⟩ ∈ ps := by
  obtain ⟨looked, peers, after, hlookup, -, rfl⟩ := exists_of_leads_bind_ok h
  obtain ⟨started, -, awaited, -, hawait, rfl⟩ := exists_of_leads_bind_ok hlookup
  have hfound := List.forall₂_map_left_iff.mp (forall₂_of_leads_awaitAll hawait)
  intro name hname
  obtain ⟨found, hmem⟩ := exists_of_forall₂ hfound hname
  exact ⟨found, List.mem_append_left _ (List.mem_append_right _ hmem)⟩

theorem prepares_host_files : Prepares (host (Host.ask .files)) := by
  intro es r h
  obtain ⟨hs, a, hleads, rfl, rfl⟩ := exists_of_leads_host h
  obtain rfl := leads_ask_iff.mp hleads
  simp [onHost, Request.IsPreparation, Answered]

theorem prepares_findConflict (context : Context) (config : Config) :
    Prepares (findConflict context config) := by
  unfold findConflict
  cases context.packageJson with
  | none => exact proceeds_pure none
  | some path =>
    refine prepares_host_files.bind fun files => ?_
    split
    · exact proceeds_throw _
    · split
      · exact proceeds_throw _
      · exact proceeds_pure none
      · exact (looksUp_required _ _).packages.bind fun _ => proceeds_pure _

theorem prepares_askFormat (context : Context) (config : Config) :
    Prepares (askFormat context config) := by
  refine (drafts_choose (by decide) _ _).prepares.bind fun _ =>
    (prepares_findConflict _ _).bind fun conflict => ?_
  cases conflict with
  | none => exact proceeds_pure _
  | some conflict => exact (prepares_confirm _ _).bind fun _ => proceeds_pure _

/-! ## What is settled before anything is changed -/

/-- What is settled before anything is changed: the draft, the format, and the packages to install.
-/
structure Plan where
  draft : Draft
  choice : FormatChoice
  packages : List String

/-- The questions and the look-ups. -/
def prepare (context : Context) : Session Plan := do
  let d ← askDraft context.hasPackageJson
  let choice ← askFormat context d.config
  let all ← packages (Packages.required d.config choice.installLinter)
  return ⟨d, choice, all⟩

theorem prepares_prepare (context : Context) : Prepares (prepare context) :=
  (drafts_askDraft _).prepares.bind fun _ => (prepares_askFormat _ _).bind fun _ =>
    (looksUp_required _ _).packages.bind fun _ => proceeds_pure _

/-- The preparation of a plan: nothing is changed, every question is answered, and every look-up
succeeds, among them those of all packages that the drafted configuration names. -/
structure Prepared (context : Context) (es : List (Exchange Wizard)) (p : Plan) : Prop where
  leads : (prepare context).run.Leads es (.ok p)
  asked : ∀ e ∈ es, Request.IsPreparation e.asked
  answered : ∀ e ∈ es, Answered e
  lookedUp : ∀ name ∈ p.draft.config.packages,
    ∃ peers, ⟨.packages (.awaitLookup (Packages.latest name)), Except.ok peers⟩ ∈ es

theorem prepared_of_leads {context : Context} {es : List (Exchange Wizard)} {p : Plan}
    (h : (prepare context).run.Leads es (.ok p)) : Prepared context es p := by
  obtain ⟨hasked, hanswered⟩ := prepares_prepare context es _ h
  refine ⟨h, hasked, hanswered p rfl, ?_⟩
  -- the packages come last, after the draft and the format
  obtain ⟨drafting, d, rest₁, -, h₁, rfl⟩ := exists_of_leads_bind_ok h
  obtain ⟨choosing, choice, rest₂, -, h₂, rfl⟩ := exists_of_leads_bind_ok h₁
  obtain ⟨looking, all, rest₃, hrequired, h₃, rfl⟩ := exists_of_leads_bind_ok h₂
  obtain ⟨rfl, hplan⟩ := leads_pure_except_iff.mp h₃
  obtain rfl := Except.ok.inj hplan
  obtain ⟨ps, f | packages, hps, rfl, hall⟩ := exists_of_leads_packages hrequired
  · cases hall
  intro name hname
  obtain ⟨peers, hpeers⟩ := exists_mem_of_leads_required hps name hname
  exact ⟨peers, List.mem_append_right _ (List.mem_append_right _ (List.mem_append_left _
    (List.mem_map_of_mem hpeers)))⟩

end LintSetup.Wizard
