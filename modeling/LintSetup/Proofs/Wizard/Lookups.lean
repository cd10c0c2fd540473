import LintSetup.Proofs.Packages.Required
import LintSetup.Proofs.Wizard.Preparation

/-!
# Looking packages up twice

A set-up may look the same packages up twice, first to find out which version of the linter they
demand, and then to install them.  Between the two it may ask a question whose text is made from the
first answers, so that question and installation belong together only if the answers do.

* `Steady` --- the package manager gives the same answer whenever the same package is looked up;
  `NamesPackages` --- no peer that it names would pass for the linter on a list of packages.
* `LookedUp` --- the answers that there were for the packages of a configuration.
* `Steady.required_eq` --- the list of required packages is settled by the answers that there were.
-/

namespace LintSetup.Wizard

open Dialogue hiding bind_assoc
open Packages (Peers needed isLinter latest)

/-! ## What the package manager answers -/

/-- Whenever the same package is looked up, the package manager gives the same answer. -/
structure Steady (es : List (Exchange Wizard)) : Prop where
  starts : ∀ {package : String} {a b : Except Failure Unit},
    ⟨.packages (.startLookup package), a⟩ ∈ es → ⟨.packages (.startLookup package), b⟩ ∈ es → a = b
  awaits : ∀ {package : String} {a b : Except Failure Peers},
    ⟨.packages (.awaitLookup package), a⟩ ∈ es → ⟨.packages (.awaitLookup package), b⟩ ∈ es → a = b

/-- No peer that the package manager answers with has a name that begins like an entry for the
linter. -/
def NamesPackages (es : List (Exchange Wizard)) : Prop :=
  ∀ (package : String) (peers : Peers),
    ⟨.packages (.awaitLookup package), Except.ok peers⟩ ∈ es →
      ∀ name ∈ Members.keys peers, isLinter name = false

/-- The peers of the packages that a configuration names, as the package manager has answered. -/
structure LookedUp (config : Config) (es : List (Exchange Wizard)) (peers : List Peers) : Prop where
  started : ∀ package ∈ config.packages,
    ⟨.packages (.startLookup (latest package)), Except.ok ()⟩ ∈ es
  found : List.Forall₂ (fun package known =>
    ⟨.packages (.awaitLookup (latest package)), Except.ok known⟩ ∈ es) config.packages peers

theorem LookedUp.mono {config : Config} {es fs : List (Exchange Wizard)} {peers : List Peers}
    (h : LookedUp config es peers) (hsub : es ⊆ fs) : LookedUp config fs peers :=
  ⟨fun package hpackage => hsub (h.started package hpackage), h.found.imp fun _ _ hmem => hsub hmem⟩

/-- Peers that were looked up were answered with. -/
theorem LookedUp.exists_of_mem {config : Config} {es : List (Exchange Wizard)} {peers : List Peers}
    (h : LookedUp config es peers) {known : Peers} (hknown : known ∈ peers) :
    ∃ package, ⟨.packages (.awaitLookup (latest package)), Except.ok known⟩ ∈ es :=
  exists_of_forall₂ (List.Forall₂.flip h.found) hknown

theorem Steady.mono {es fs : List (Exchange Wizard)} (h : Steady fs) (hsub : es ⊆ fs) : Steady es :=
  ⟨fun ha hb => h.starts (hsub ha) (hsub hb), fun ha hb => h.awaits (hsub ha) (hsub hb)⟩

theorem NamesPackages.mono {es fs : List (Exchange Wizard)} (h : NamesPackages fs)
    (hsub : es ⊆ fs) : NamesPackages es :=
  fun package peers hanswer => h package peers (hsub hanswer)

/-- The answers settle the peers. -/
theorem Steady.peers_eq {config : Config} {es : List (Exchange Wizard)} {peers others : List Peers}
    (h : Steady es) (hpeers : LookedUp config es peers) (hothers : LookedUp config es others) :
    peers = others := by
  refine List.right_unique_forall₂' ?_ hpeers.found hothers.found
  intro package known known' hknown hknown'
  exact Except.ok.inj (h.awaits hknown hknown')

/-- Answers to look-ups that depend on the package only. -/
def AnswersBy (started : String → Except Failure Unit) (known : String → Except Failure Peers) :
    Exchange Wizard → Prop
  | ⟨.packages (.startLookup package), answer⟩ => answer = started package
  | ⟨.packages (.awaitLookup package), answer⟩ => answer = known package
  | _ => True

theorem steady_of_answersBy {started : String → Except Failure Unit}
    {known : String → Except Failure Peers} {es : List (Exchange Wizard)}
    (h : ∀ e ∈ es, AnswersBy started known e) : Steady es :=
  ⟨fun ha hb => Eq.trans (h _ ha) (Eq.symm (h _ hb)),
    fun ha hb => Eq.trans (h _ ha) (Eq.symm (h _ hb))⟩

/-! ## Look-ups -/

theorem mem_of_leads_startAll {names : List String} {ps : List (Exchange Packages.Manager)}
    (h : (Packages.startAll names).run.Leads ps (.ok ())) :
    ∀ name ∈ names, ⟨.startLookup name, Except.ok ()⟩ ∈ ps := by
  induction names generalizing ps with
  | nil => simp
  | cons name rest ih =>
    obtain ⟨before, done, after, hname, hrest, rfl⟩ := exists_of_leads_bind_ok h
    obtain rfl := leads_ask_iff.mp hname
    exact List.forall_mem_cons.mpr ⟨List.mem_cons_self, fun other hother =>
      List.mem_append_right _ (ih hrest other hother)⟩

theorem ok_of_leads_startAll {names : List String} {ps : List (Exchange Packages.Manager)}
    {r : Except Failure Unit} (h : (Packages.startAll names).run.Leads ps r)
    (hanswers : ∀ name ∈ names, ∀ a : Except Failure Unit,
      ⟨.startLookup name, a⟩ ∈ ps → a = .ok ()) : r = .ok () := by
  induction names generalizing ps with
  | nil => exact (leads_pure_except_iff.mp h).2
  | cons name rest ih =>
    rw [List.forall_mem_cons] at hanswers
    obtain ⟨e, hfail, rfl⟩ | ⟨before, done, after, hname, hrest, rfl⟩ := leads_bind_except_iff.mp h
    · obtain rfl := leads_ask_iff.mp hfail
      cases hanswers.1 _ List.mem_cons_self
    · exact ih hrest fun other hother a ha =>
        hanswers.2 other hother a (List.mem_append_right _ ha)

/-- Look-ups that are waited for come to the peers that every answer names. -/
theorem ok_of_leads_awaitAll {names : List String} {ps : List (Exchange Packages.Manager)}
    {r : Except Failure (List Peers)} (h : (Packages.awaitAll names).run.Leads ps r)
    {all : List Peers}
    (hanswers : List.Forall₂ (fun name known => ∀ a : Except Failure Peers,
      ⟨.awaitLookup name, a⟩ ∈ ps → a = .ok known) names all) : r = .ok all := by
  induction names generalizing ps r all with
  | nil =>
    cases hanswers
    exact (leads_pure_except_iff.mp h).2
  | cons name rest ih =>
    obtain ⟨known, others, hfirst, hothers, rfl⟩ := List.forall₂_cons_left_iff.mp hanswers
    obtain ⟨e, hfail, rfl⟩ | ⟨before, peers, after, hname, hrest, rfl⟩ := leads_bind_except_iff.mp h
    · obtain rfl := leads_ask_iff.mp hfail
      cases hfirst _ List.mem_cons_self
    obtain rfl := leads_ask_iff.mp hname
    obtain rfl : peers = known := Except.ok.inj (hfirst (.ok peers) List.mem_cons_self)
    have hlater : ∀ {part : List (Exchange Packages.Manager)}, part ⊆ after →
        List.Forall₂ (fun name known => ∀ a : Except Failure Peers,
          ⟨.awaitLookup name, a⟩ ∈ part → a = .ok known) rest others := fun hsub =>
      hothers.imp fun _ _ hanswer a ha => hanswer a (List.mem_append_right _ (hsub ha))
    obtain ⟨e, hfail, rfl⟩ | ⟨before, found, after, hfound, hpure, rfl⟩ :=
      leads_bind_except_iff.mp hrest
    · cases ih hfail (hlater (List.Subset.refl _))
    · obtain rfl := Except.ok.inj (ih hfound (hlater (List.subset_append_left _ _)))
      exact (leads_pure_except_iff.mp hpure).2

/-- A list of required packages is what the answers to the look-ups make of the configuration. -/
theorem exists_of_leads_required {config : Config} {wanted : Bool}
    {ps : List (Exchange Packages.Manager)} {all : List String}
    (h : (Packages.required config wanted).run.Leads ps (.ok all)) :
    ∃ peers, LookedUp config (onPackages ps) peers ∧ all = needed config peers wanted := by
  obtain ⟨looking, peers, after, hlookup, hpure, rfl⟩ := exists_of_leads_bind_ok h
  obtain ⟨rfl, hall⟩ := leads_pure_except_iff.mp hpure
  obtain ⟨starting, done, awaiting, hstart, hawait, rfl⟩ := exists_of_leads_bind_ok hlookup
  rw [List.append_nil]
  have hstarted := mem_of_leads_startAll hstart
  have hfound := forall₂_of_leads_awaitAll hawait
  rw [List.forall₂_map_left_iff] at hfound
  refine ⟨peers, ⟨fun package hpackage => ?_, hfound.imp fun package known hmem => ?_⟩,
    Except.ok.inj hall⟩
  · exact List.mem_map_of_mem (List.mem_append_left _ (hstarted _ (List.mem_map_of_mem hpackage)))
  · exact List.mem_map_of_mem (List.mem_append_right _ hmem)

/-- Look-ups that were answered once are answered the same way again. -/
theorem Steady.lookupAll_eq {config : Config} {es : List (Exchange Wizard)}
    {ps : List (Exchange Packages.Manager)} {r : Except Failure (List Peers)} {peers : List Peers}
    (h : Steady es) (hlooked : LookedUp config es peers)
    (hleads : (Packages.lookupAll (config.packages.map latest)).run.Leads ps r)
    (hsub : onPackages ps ⊆ es) : r = .ok peers := by
  obtain ⟨e, hfail, rfl⟩ | ⟨starting, done, awaiting, -, hawait, rfl⟩ :=
    leads_bind_except_iff.mp hleads
  · have hstarts := ok_of_leads_startAll hfail <| List.forall_mem_map.mpr fun package hpackage a ha =>
      h.starts (hsub (List.mem_map_of_mem ha)) (hlooked.started package hpackage)
    cases hstarts
  · refine ok_of_leads_awaitAll hawait (List.forall₂_map_left_iff.mpr ?_)
    refine hlooked.found.imp fun package known hknown a ha => ?_
    exact h.awaits (hsub (List.mem_map_of_mem (List.mem_append_right starting ha))) hknown

/-- The list of required packages follows from the first answers. -/
theorem Steady.required_eq {config : Config} {wanted : Bool} {es : List (Exchange Wizard)}
    {ps : List (Exchange Packages.Manager)} {r : Except Failure (List String)} {peers : List Peers}
    (h : Steady es) (hlooked : LookedUp config es peers)
    (hleads : (Packages.required config wanted).run.Leads ps r) (hsub : onPackages ps ⊆ es) :
    r = .ok (needed config peers wanted) := by
  obtain ⟨e, hfail, rfl⟩ | ⟨looking, found, after, hlookup, hpure, rfl⟩ :=
    leads_bind_except_iff.mp hleads
  · cases h.lookupAll_eq hlooked hfail hsub
  · have hfirst : onPackages looking ⊆ es := fun e he =>
      hsub (List.map_subset _ (List.subset_append_left _ _) he)
    obtain rfl := Except.ok.inj (h.lookupAll_eq hlooked hlookup hfirst)
    exact (leads_pure_except_iff.mp hpure).2

end LintSetup.Wizard
