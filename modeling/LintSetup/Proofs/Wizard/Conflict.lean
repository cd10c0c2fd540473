import LintSetup.Proofs.Packages.Conflict
import LintSetup.Proofs.Wizard.Versions

/-!
# The search for a conflict

Before it chooses what to install, a set-up compares the version of the linter that the project
states with the one that the configuration needs.  The search has many ways out: there may be no
`package.json`, or none that can be read, its text may be blank, or no JSON, or state no range, a
look-up may fail, and what the look-ups come to may be no range.

* `Search` --- the ways in which a search goes on once there is a `package.json`, each with the
  look-ups that are made on it.
* `Judged` --- when there is a conflict, when there is none, when the search fails, and when no
  package is looked up.

`judged_findConflict` says that every search is judged, whatever the files, the configuration and the
package manager are.
-/

namespace LintSetup.Wizard

open Dialogue hiding bind_assoc
open Packages (Peers Conflict States Demands Malformed LookupFails lookups needed latest)

/-! ## Look-ups as parts of the conversation -/

/-- Answers to look-ups settle which peers there are. -/
theorem lookups_inj {packages : List String} {peers others : List Peers}
    (hpeers : peers.length = packages.length) (hothers : others.length = packages.length)
    (h : lookups packages peers = lookups packages others) : peers = others := by
  have hfound := List.append_cancel_left h
  clear h
  induction packages generalizing peers others with
  | nil => rw [List.length_eq_zero_iff.mp hpeers, List.length_eq_zero_iff.mp hothers]
  | cons package rest ih =>
    obtain ⟨known, peers, rfl⟩ := List.exists_cons_of_length_eq_add_one hpeers
    obtain ⟨known', others, rfl⟩ := List.exists_cons_of_length_eq_add_one hothers
    rw [List.zipWith_cons_cons, List.zipWith_cons_cons, List.cons.injEq] at hfound
    rw [ih (Nat.succ.inj hpeers) (Nat.succ.inj hothers) hfound.2]
    cases hfound.1
    rfl

theorem lookedUp_lookups {config : Config} {peers : List Peers}
    (h : peers.length = config.packages.length) :
    LookedUp config (onPackages (lookups config.packages peers)) peers := by
  refine ⟨fun package hpackage => ?_, List.forall₂_iff_zip.mpr ⟨h.symm, ?_⟩⟩
  · have hmem : (⟨.startLookup (latest package), Except.ok ()⟩ : Exchange Packages.Manager) ∈
        lookups config.packages peers :=
      List.mem_append_left _ (List.mem_map_of_mem hpackage)
    exact List.mem_map_of_mem hmem
  · intro package known hpair
    have hmem : (⟨.awaitLookup (latest package), Except.ok known⟩ : Exchange Packages.Manager) ∈
        lookups config.packages peers := by
      refine List.mem_append_right _ ?_
      rw [← List.map_uncurry_zip_eq_zipWith]
      exact List.mem_map_of_mem hpair
    exact List.mem_map_of_mem hmem

/-! ## The ways in which a search goes on -/

/-- A search with what reading the `package.json` comes to, the look-ups that it makes, and its
result. -/
inductive Search (config : Config) (content : Except IoError String) :
    List (Exchange Packages.Manager) → Except Error (Option Conflict) → Prop
  | unread {e : IoError} (error : Error) (hread : content = .error e) :
    Search config content [] (.error error)
  | malformed {text : String} (error : Error) (hread : content = .ok text)
    (hmalformed : Malformed text) : Search config content [] (.error error)
  | unstated {text : String} (hread : content = .ok text) (hsound : ¬ Malformed text)
    (hstates : ∀ actual, ¬ States text actual) : Search config content [] (.ok none)
  | unknown {text actual : String} {ps : List (Exchange Packages.Manager)} (error : Error)
    (hread : content = .ok text) (hstates : States text actual)
    (hfails : ∃ package ∈ config.packages, LookupFails ps (latest package)) :
    Search config content ps (.error error)
  | compared {text actual : String} {peers : List Peers} (hread : content = .ok text)
    (hstates : States text actual) (hlength : peers.length = config.packages.length) :
    Search config content (lookups config.packages peers)
      (.ok (Conflict.of? actual (needed config peers true)))

theorem findConflict_of_none {context : Context} (h : context.packageJson = none)
    (config : Config) : findConflict context config = pure none := by
  rw [findConflict, h]

theorem search_of_leads {context : Context} {config : Config} {path : String}
    {es : List (Exchange Wizard)} {r : Except Error (Option Conflict)}
    (hpath : context.packageJson = some path) (h : (findConflict context config).run.Leads es r) :
    ∃ (files : Node) (ps : List (Exchange Packages.Manager)),
      es = ⟨.host .files, files⟩ :: onPackages ps ∧
        Search config (files.readText path) ps r := by
  rw [findConflict, hpath] at h
  obtain ⟨e, hfail, -⟩ | ⟨reading, files, rest, hread, h₁, rfl⟩ := leads_bind_except_iff.mp h
  · obtain ⟨hs, a, -, -, hok⟩ := exists_of_leads_host hfail
    cases hok
  obtain ⟨hs, a, hfiles, rfl, hok⟩ := exists_of_leads_host hread
  obtain rfl := Except.ok.inj hok
  obtain rfl := leads_ask_iff.mp hfiles
  have hcons : ∀ {ps : List (Exchange Packages.Manager)}, rest = onPackages ps →
      onHost [⟨.files, files⟩] ++ rest = ⟨.host .files, files⟩ :: onPackages ps := by
    rintro ps rfl
    rfl
  split at h₁
  · next e hunread =>
    obtain ⟨rfl, rfl⟩ := leads_pure_iff.mp h₁
    exact ⟨files, [], hcons rfl, .unread _ hunread⟩
  next text htext =>
  split at h₁
  · next f hmalformed =>
    obtain ⟨rfl, rfl⟩ := leads_pure_iff.mp h₁
    exact ⟨files, [], hcons rfl,
      .malformed _ htext (Packages.localRange?_eq_error_iff.mp ⟨f, hmalformed⟩)⟩
  · next hnone =>
    obtain ⟨rfl, rfl⟩ := leads_pure_except_iff.mp h₁
    refine ⟨files, [], hcons rfl, .unstated htext ?_ ?_⟩
    · intro hmalformed
      obtain ⟨f, hf⟩ : ∃ f, Packages.localRange? path text = .error f :=
        Packages.localRange?_eq_error_iff.mpr hmalformed
      rw [hnone] at hf
      cases hf
    · intro actual hstates
      rw [Packages.localRange?_eq_some_iff.mpr hstates] at hnone
      cases hnone
  · next actual hactual =>
    have hstates := Packages.localRange?_eq_some_iff.mp hactual
    obtain ⟨e, hfail, rfl⟩ | ⟨looking, all, after, hlook, hpure, rfl⟩ :=
      leads_bind_except_iff.mp h₁
    · obtain ⟨ps, a, hps, rfl, he⟩ := exists_of_leads_packages hfail
      obtain ⟨_, -, -, rfl⟩ | ⟨f, rfl, hfails⟩ := Packages.leads_required hps
      · cases he
      · exact ⟨files, ps, hcons rfl, .unknown _ htext hstates hfails⟩
    · obtain ⟨rfl, rfl⟩ := leads_pure_except_iff.mp hpure
      obtain ⟨ps, a, hps, rfl, hall⟩ := exists_of_leads_packages hlook
      obtain ⟨peers, hlength, rfl, rfl⟩ | ⟨f, rfl, -⟩ := Packages.leads_required hps
      · obtain rfl := Except.ok.inj hall
        refine ⟨files, _, hcons (List.append_nil _), ?_⟩
        rw [← Packages.needed_eq_listed]
        exact .compared htext hstates hlength
      · cases hall

/-! ## What a search comes to -/

/-- The look-ups for a configuration have succeeded, and certain maps of peers were the answers. -/
def PeersFound (config : Config) (ps : List (Exchange Packages.Manager)) (peers : List Peers) :
    Prop :=
  peers.length = config.packages.length ∧ ps = lookups config.packages peers

theorem PeersFound.unique {config : Config} {ps : List (Exchange Packages.Manager)}
    {peers others : List Peers} (h : PeersFound config ps peers)
    (h' : PeersFound config ps others) : peers = others :=
  lookups_inj h.1 h'.1 (h.2.symm.trans h'.2)

theorem PeersFound.not_lookupFails {config : Config} {ps : List (Exchange Packages.Manager)}
    {peers : List Peers} (h : PeersFound config ps peers) (package : String) :
    ¬ LookupFails ps package := by
  rw [h.2]
  exact Packages.not_lookupFails_lookups _ _ _

/-- A search is judged by what reading the `package.json` comes to and by the answers of the package
manager.

* There is a conflict exactly when the text states one range, the answers demand another one, and the
  two have no version in common.
* There is none exactly when the text is not malformed and states no range, or when the look-ups
  succeed and whatever range their answers demand has a version in common with the stated one.
* The search fails exactly when the text cannot be read, or is malformed, or a look-up fails.
* Where no range is stated, no package is looked up. -/
structure Judged (config : Config) (content : Except IoError String)
    (ps : List (Exchange Packages.Manager)) (r : Except Error (Option Conflict)) : Prop where
  conflict : ∀ c, r = .ok (some c) ↔ ∃ text peers, content = .ok text ∧ States text c.actual ∧
    PeersFound config ps peers ∧ Demands peers c.expected ∧
      Range.textsIntersect c.actual c.expected = false
  agreement : r = .ok none ↔ ∃ text, content = .ok text ∧
    ((¬ Malformed text ∧ ∀ actual, ¬ States text actual) ∨
      ∃ actual peers, States text actual ∧ PeersFound config ps peers ∧
        ∀ expected, Demands peers expected → Range.textsIntersect actual expected = true)
  failure : (∃ error, r = .error error) ↔ (∃ e, content = .error e) ∨
    (∃ text, content = .ok text ∧ Malformed text) ∨
      ∃ package ∈ config.packages, LookupFails ps (latest package)
  unasked : (∀ text, content = .ok text → ∀ actual, ¬ States text actual) → ps = []

/-- A search that ends before it states a range fails, or finds no conflict, without any look-up. -/
theorem judged_of_unstated {config : Config} {content : Except IoError String}
    {r : Except Error (Option Conflict)}
    (hstates : ∀ text, content = .ok text → ∀ actual, ¬ States text actual)
    (hsome : ∀ c, r ≠ .ok (some c))
    (hnone : r = .ok none ↔ ∃ text, content = .ok text ∧ ¬ Malformed text)
    (hfail : (∃ error, r = .error error) ↔
      (∃ e, content = .error e) ∨ ∃ text, content = .ok text ∧ Malformed text) :
    Judged config content [] r := by
  have hasked : ∀ package, ¬ LookupFails [] package := by
    rintro package ⟨f, hf | hf⟩ <;> cases hf
  refine ⟨fun c => iff_of_false (hsome c) ?_, hnone.trans ?_, hfail.trans ?_, fun _ => rfl⟩
  · rintro ⟨text, peers, hread, hactual, -⟩
    exact hstates text hread _ hactual
  · refine exists_congr fun text => and_congr_right fun hread => ?_
    constructor
    · exact fun hsound => .inl ⟨hsound, hstates text hread⟩
    · rintro (⟨hsound, -⟩ | ⟨actual, peers, hactual, -⟩)
      · exact hsound
      · exact absurd hactual (hstates text hread actual)
  · refine or_congr_right (or_iff_left ?_).symm
    rintro ⟨package, -, hfails⟩
    exact hasked _ hfails

theorem Search.judged {config : Config} {content : Except IoError String}
    {ps : List (Exchange Packages.Manager)} {r : Except Error (Option Conflict)}
    (h : Search config content ps r)
    (hnames : ∀ peers, PeersFound config ps peers →
      ∀ known ∈ peers, ∀ name ∈ Members.keys known, Packages.isLinter name = false) :
    Judged config content ps r := by
  cases h with
  | unread error hread =>
    subst hread
    exact judged_of_unstated (by simp) (by simp) (by simp) (iff_of_true ⟨_, rfl⟩ (.inl ⟨_, rfl⟩))
  | malformed error hread hmalformed =>
    subst hread
    refine judged_of_unstated ?_ (by simp) (by simpa using hmalformed)
      (iff_of_true ⟨_, rfl⟩ (.inr ⟨_, rfl, hmalformed⟩))
    rintro _ ⟨⟩ actual hactual
    exact hactual.not_malformed hmalformed
  | unstated hread hsound hstates =>
    subst hread
    refine judged_of_unstated ?_ (by simp) (by simpa using hsound) (by simpa using hsound)
    rintro _ ⟨⟩
    exact hstates
  | @unknown text actual _ error hread hstates hfails =>
    subst hread
    obtain ⟨package, hpackage, hlookup⟩ := hfails
    refine ⟨fun c => iff_of_false (by simp) ?_, iff_of_false (by simp) ?_,
      iff_of_true ⟨_, rfl⟩ (.inr (.inr ⟨package, hpackage, hlookup⟩)), fun hnone => ?_⟩
    · rintro ⟨_, peers, -, -, hfound, -⟩
      exact hfound.not_lookupFails _ hlookup
    · rintro ⟨_, ⟨⟩, ⟨-, hnone⟩ | ⟨_, peers, -, hfound, -⟩⟩
      · exact hnone actual hstates
      · exact hfound.not_lookupFails _ hlookup
    · exact absurd hstates (hnone text rfl actual)
  | @compared text actual peers hread hstates hlength =>
    subst hread
    have hfound : PeersFound config (lookups config.packages peers) peers := ⟨hlength, rfl⟩
    have hconflict : ∀ c, Conflict.of? actual (needed config peers true) = some c ↔
        c.actual = actual ∧ Demands peers c.expected ∧
          Range.textsIntersect c.actual c.expected = false :=
      fun c => Packages.conflict_needed_iff (hnames peers hfound)
    refine ⟨fun c => ?_, ?_, iff_of_false (by simp) ?_, fun hnone => ?_⟩
    · rw [Except.ok.injEq, hconflict]
      constructor
      · rintro ⟨rfl, hdemands, hapart⟩
        exact ⟨text, peers, rfl, hstates, hfound, hdemands, hapart⟩
      · rintro ⟨_, others, ⟨⟩, hactual, hothers, hdemands, hapart⟩
        obtain rfl := hfound.unique hothers
        exact ⟨hactual.unique hstates, hdemands, hapart⟩
    · rw [Except.ok.injEq, Option.eq_none_iff_forall_ne_some]
      constructor
      · intro hnever
        refine ⟨text, rfl, .inr ⟨actual, peers, hstates, hfound, fun expected hdemands => ?_⟩⟩
        rw [← Bool.not_eq_false]
        exact fun hapart => hnever ⟨expected, actual⟩ ((hconflict _).mpr ⟨rfl, hdemands, hapart⟩)
      · rintro ⟨_, ⟨⟩, ⟨-, hnone⟩ | ⟨_, others, hactual, hothers, hmeet⟩⟩ c hc
        · exact hnone actual hstates
        · obtain rfl := hfound.unique hothers
          obtain rfl := hactual.unique hstates
          obtain ⟨rfl, hdemands, hapart⟩ := (hconflict c).mp hc
          rw [hmeet _ hdemands] at hapart
          cases hapart
    · rintro (⟨e, ⟨⟩⟩ | ⟨_, ⟨⟩, hmalformed⟩ | ⟨package, -, hlookup⟩)
      · exact hstates.not_malformed hmalformed
      · exact hfound.not_lookupFails _ hlookup
    · exact absurd hstates (hnone text rfl actual)

/-- **When a version of the linter conflicts with the project's.**  Let no peer have a name that
would pass for the linter on a list of packages.  Without a `package.json` there is no conflict, and
nothing is asked.  With one, the files are asked for first, and the search is `Judged` by the text
that is read from them and by the look-ups that follow. -/
theorem judged_findConflict {context : Context} {config : Config} {es : List (Exchange Wizard)}
    {r : Except Error (Option Conflict)} (h : (findConflict context config).run.Leads es r)
    (hnames : NamesPackages es) :
    (context.packageJson = none → es = [] ∧ r = .ok none) ∧
    ∀ path, context.packageJson = some path →
      ∃ (files : Node) (ps : List (Exchange Packages.Manager)),
        es = ⟨.host .files, files⟩ :: onPackages ps ∧
          Judged config (files.readText path) ps r := by
  refine ⟨fun hnone => ?_, fun path hpath => ?_⟩
  · rw [findConflict_of_none hnone] at h
    exact leads_pure_except_iff.mp h
  · obtain ⟨files, ps, rfl, hsearch⟩ := search_of_leads hpath h
    refine ⟨files, ps, rfl, hsearch.judged ?_⟩
    rintro peers ⟨hlength, rfl⟩ known hknown
    obtain ⟨package, hanswer⟩ := (lookedUp_lookups hlength).exists_of_mem hknown
    exact hnames _ known (List.mem_cons_of_mem _ hanswer)

/-! ## A search that finds a conflict -/

theorem namesPackages_olderProject :
    NamesPackages ([⟨.host .files, olderDisk⟩] ++ (airbnbLookups ++ [])) := by
  intro package peers hanswer name hname
  simp only [airbnbLookups, List.append_nil, List.singleton_append, List.mem_cons,
    List.not_mem_nil, or_false] at hanswer
  obtain hfiles | hstart | hawait := hanswer
  · cases hfiles
  · cases hstart
  · cases hawait
    obtain rfl := List.mem_singleton.mp hname
    decide

theorem judged_findConflict_olderProject :
    ∃ (files : Node) (ps : List (Exchange Packages.Manager)),
      [⟨.host .files, olderDisk⟩] ++ (airbnbLookups ++ []) =
          ⟨.host .files, files⟩ :: onPackages ps ∧
        Judged airbnbBase (files.readText "/package.json") ps
          (.ok (some (⟨"4", "3"⟩ : Conflict))) :=
  (judged_findConflict leads_findConflict_olderProject namesPackages_olderProject).2 _ rfl

end LintSetup.Wizard
