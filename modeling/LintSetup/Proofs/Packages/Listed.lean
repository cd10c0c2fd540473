import LintSetup.Proofs.Dialogue
import LintSetup.Proofs.Packages.Required

/-!
# What is on a list of packages

The list of the packages that a configuration needs is made by setting keys: the packages that the
configuration names are set first, then the peers of each of them, and at last the linter is set or
taken away.  A key that is set again stays where it is and gets the new range.  Which range a name
ends up with, and where it stands, is said here without this history.

* `listedNames` --- the names: those that the configuration names, each once and in their order, and
  then the other names that the peers mention, in the order in which they are mentioned first.
* `lastMention` --- the range that a name gets: the one in the last map of peers that mentions it.
* `listed` --- the list, with or without the linter.
* `lookups` --- what is asked of the package manager while nothing fails.

The main statement, `listed_required`, holds for every package manager: the list is made from the
answers in the order of the packages, and there is a list unless a look-up fails.
-/

namespace LintSetup.Packages

open Dialogue hiding bind_assoc

/-! ## Names and ranges -/

/-- The range in the last of several maps that mentions a name. -/
def lastMention (peers : List Peers) (name : String) : Option Json :=
  peers.reverse.findSome? (Members.last? · name)

/-- The names on a list: the named packages, each where it is named first, and then the other names
that peers mention, each where it is mentioned first. -/
def listedNames (packages : List String) (peers : List Peers) : List String :=
  packages.eraseDups ++ ((peers.flatMap Members.keys).removeAll packages).eraseDups

/-- The range that stands by a name: what the last mention says, and the latest version of what the
peers do not mention. -/
def listedRange (peers : List Peers) (name : String) : String :=
  ((lastMention peers name).map rangeText).getD "latest"

/-- The entry for a name. -/
def listedEntry (peers : List Peers) (name : String) : String :=
  name ++ "@" ++ listedRange peers name

/-- The list of named packages and their peers.  The linter is added at the end, in its latest
version, if it is wanted and nothing mentions it, and it is left out if it is not wanted. -/
def listed (packages : List String) (peers : List Peers) (wanted : Bool) : List String :=
  let names := listedNames packages peers
  if wanted then
    names.map (listedEntry peers) ++ if linterName ∈ names then [] else [linterName ++ "@latest"]
  else (names.filter (· ≠ linterName)).map (listedEntry peers)

theorem lastMention_cons (known : Peers) (peers : List Peers) (name : String) :
    lastMention (known :: peers) name = (lastMention peers name).or (Members.last? known name) := by
  rw [lastMention, List.reverse_cons, List.findSome?_append, List.findSome?_singleton]
  rfl

/-- The last mention in several maps is the last one when they are read one after another. -/
theorem last?_flatten (peers : List Peers) (name : String) :
    Members.last? peers.flatten name = lastMention peers name := by
  induction peers with
  | nil => rfl
  | cons known rest ih => rw [List.flatten_cons, Members.last?_append, ih, lastMention_cons]

theorem removeAll_congr {as bs cs : List String} (h : ∀ b, b ∈ bs ↔ b ∈ cs) :
    as.removeAll bs = as.removeAll cs :=
  List.filter_congr fun a _ => by simp [h a]

/-- What the members of named packages are made of. -/
def latestMembers (packages : List String) : Members Json :=
  packages.map fun package => (package, .str "latest")

theorem merge_eq_foldl (packages : List String) (peers : List Peers) :
    merge packages peers = peers.flatten.foldl (fun all m => Members.set all m.1 m.2)
      (Members.ofList (latestMembers packages)) := rfl

theorem keys_ofList_latestMembers (packages : List String) :
    Members.keys (Members.ofList (latestMembers packages)) = packages.eraseDups := by
  refine (Members.keys_foldl_set (latestMembers packages) []).trans ?_
  simp [Members.keys, latestMembers, List.removeAll, Function.comp_def]

/-- The names on the list are the keys of the merged members. -/
theorem keys_merge (packages : List String) (peers : List Peers) :
    Members.keys (merge packages peers) = listedNames packages peers := by
  have hpeers : Members.keys peers.flatten = peers.flatMap Members.keys := by
    rw [Members.keys, List.map_flatten]
    rfl
  rw [merge_eq_foldl, Members.keys_foldl_set, keys_ofList_latestMembers, hpeers, listedNames,
    removeAll_congr fun _ => List.mem_eraseDups]

theorem nodup_listedNames (packages : List String) (peers : List Peers) :
    (listedNames packages peers).Nodup :=
  keys_merge packages peers ▸ nodup_keys_merge packages peers

/-- What is not on the list is not mentioned. -/
theorem lastMention_eq_none {packages : List String} {peers : List Peers} {name : String}
    (h : name ∉ listedNames packages peers) : lastMention peers name = none := by
  rw [lastMention, List.findSome?_eq_none_iff]
  intro known hknown
  rw [Option.eq_none_iff_forall_ne_some]
  intro range hrange
  have hkey := Members.mem_keys_of_mem (List.mem_reverse.mp (Members.mem_of_get? hrange))
  rw [← keys_merge] at h
  exact h (mem_keys_merge.mpr (.inr ⟨known, List.mem_reverse.mp hknown, hkey⟩))

/-- A name on the list reads as its last mention among the merged members, or as the latest
version. -/
theorem get?_merge {packages : List String} {peers : List Peers} {name : String}
    (h : name ∈ Members.keys (merge packages peers)) :
    Members.get? (merge packages peers) name =
      some ((lastMention peers name).getD (.str "latest")) := by
  have hread := Members.get?_foldl_set peers.flatten (Members.ofList (latestMembers packages)) name
  rw [← merge_eq_foldl, last?_flatten] at hread
  obtain ⟨range, hrange⟩ := Option.isSome_iff_exists.mp ((Members.has_iff_mem_keys _ _).mpr h)
  rw [hread]
  cases hlast : lastMention peers name with
  | some range => rfl
  | none =>
    -- no peer has the name, so it is one of the packages
    rw [hread, hlast, Option.none_or] at hrange
    have hset := (Members.get?_foldl_set (latestMembers packages) [] name).symm.trans hrange
    rw [Members.get?_nil, Option.or_none] at hset
    obtain ⟨package, -, hmember⟩ := List.mem_map.mp
      (List.mem_reverse.mp (Members.mem_of_get? hset))
    rw [hrange, Option.none_or, Option.getD_none, (Prod.mk.inj hmember).2]

/-- The merged members are the names on the list with their ranges. -/
theorem merge_eq (packages : List String) (peers : List Peers) :
    merge packages peers = (listedNames packages peers).map fun name =>
      (name, (lastMention peers name).getD (.str "latest")) := by
  rw [← keys_merge]
  exact Members.eq_map_of_nodup (nodup_keys_merge packages peers) fun _ => get?_merge

theorem spec_lastMention (peers : List Peers) (name : String) :
    spec (name, (lastMention peers name).getD (.str "latest")) = listedEntry peers name := by
  rw [spec_eq, listedEntry, listedRange]
  cases lastMention peers name <;> rfl

theorem needed_eq_listed (config : Config) (peers : List Peers) (wanted : Bool) :
    needed config peers wanted = listed config.packages peers wanted := by
  have hentries : (merge config.packages peers).map spec =
      (listedNames config.packages peers).map (listedEntry peers) := by
    rw [merge_eq, List.map_map]
    exact List.map_congr_left fun name _ => spec_lastMention peers name
  cases wanted with
  | true =>
    have hhas := Members.has_iff_mem_keys (merge config.packages peers) linterName
    rw [keys_merge] at hhas
    rw [needed, withLinter, if_pos rfl, Members.setNew, listed, if_pos rfl]
    split
    · next hmem => rw [if_pos (hhas.mp hmem), hentries, List.append_nil]
    · next hmem =>
      rw [if_neg (mt hhas.mpr hmem), List.map_append, hentries]
      rfl
  | false =>
    rw [needed, withLinter, if_neg Bool.false_ne_true, listed, if_neg Bool.false_ne_true,
      merge_eq, Members.erase, List.filter_map, List.map_map]
    have hsame : ((fun m : String × Json => m.1 != linterName) ∘ fun name =>
        (name, (lastMention peers name).getD (.str "latest"))) = (decide <| · ≠ linterName) := by
      funext name
      simp [bne, beq_eq_decide]
    rw [hsame]
    exact List.map_congr_left fun name _ => spec_lastMention peers name

/-! ## The look-ups -/

/-- What is asked about packages while nothing fails: every look-up is started, and then every one
is waited for. -/
def lookups (packages : List String) (peers : List Peers) : List (Exchange Manager) :=
  packages.map (fun package => ⟨.startLookup (latest package), Except.ok ()⟩) ++
    List.zipWith (fun package known => ⟨.awaitLookup (latest package), Except.ok known⟩) packages
      peers

/-- Among several exchanges the look-up of a package has failed: it was not started, or it came to
nothing. -/
def LookupFails (es : List (Exchange Manager)) (package : String) : Prop :=
  ∃ f : Failure, ⟨.startLookup package, Except.error f⟩ ∈ es ∨
    ⟨.awaitLookup package, Except.error f⟩ ∈ es

theorem LookupFails.mono {es fs : List (Exchange Manager)} {package : String}
    (h : LookupFails es package) (hsub : es ⊆ fs) : LookupFails fs package := by
  obtain ⟨f, hf⟩ := h
  exact ⟨f, hf.imp (@hsub _) (@hsub _)⟩

theorem not_lookupFails_lookups (packages : List String) (peers : List Peers) (package : String) :
    ¬ LookupFails (lookups packages peers) package := by
  rintro ⟨f, hf | hf⟩
  all_goals
    rcases List.mem_append.mp hf with hmem | hmem
    · obtain ⟨_, -, heq⟩ := List.mem_map.mp hmem
      cases heq
    · rw [← List.map_uncurry_zip_eq_zipWith] at hmem
      obtain ⟨_, -, heq⟩ := List.mem_map.mp hmem
      cases heq

/-- Either all look-ups are started, or the one that is not ends the conversation. -/
theorem leads_startAll {names : List String} {es : List (Exchange Manager)}
    {r : Except Failure Unit} (h : (startAll names).run.Leads es r) :
    (r = .ok () ∧ es = names.map fun name => ⟨.startLookup name, Except.ok ()⟩) ∨
      ∃ f, r = .error f ∧ ∃ name ∈ names, LookupFails es name := by
  induction names generalizing es with
  | nil =>
    obtain ⟨rfl, rfl⟩ := leads_pure_except_iff.mp h
    exact .inl ⟨rfl, rfl⟩
  | cons name rest ih =>
    obtain ⟨f, hfail, rfl⟩ | ⟨before, started, after, hname, hrest, rfl⟩ :=
      leads_bind_except_iff.mp h
    · obtain rfl := leads_ask_iff.mp hfail
      exact .inr ⟨f, rfl, name, List.mem_cons_self, f, .inl List.mem_cons_self⟩
    · obtain rfl := leads_ask_iff.mp hname
      obtain ⟨rfl, rfl⟩ | ⟨f, rfl, other, hother, hfails⟩ := ih hrest
      · exact .inl ⟨rfl, rfl⟩
      · exact .inr ⟨f, rfl, other, List.mem_cons_of_mem _ hother,
          hfails.mono (List.subset_append_right _ _)⟩

/-- Either all look-ups are answered, or the one that is not ends the conversation. -/
theorem leads_awaitAll {names : List String} {es : List (Exchange Manager)}
    {r : Except Failure (List Peers)} (h : (awaitAll names).run.Leads es r) :
    (∃ peers, r = .ok peers ∧ peers.length = names.length ∧
      es = List.zipWith (fun name known => ⟨.awaitLookup name, Except.ok known⟩) names peers) ∨
      ∃ f, r = .error f ∧ ∃ name ∈ names, LookupFails es name := by
  induction names generalizing es r with
  | nil =>
    obtain ⟨rfl, rfl⟩ := leads_pure_except_iff.mp h
    exact .inl ⟨[], rfl, rfl, rfl⟩
  | cons name rest ih =>
    obtain ⟨f, hfail, rfl⟩ | ⟨before, known, after, hname, hrest, rfl⟩ :=
      leads_bind_except_iff.mp h
    · obtain rfl := leads_ask_iff.mp hfail
      exact .inr ⟨f, rfl, name, List.mem_cons_self, f, .inr List.mem_cons_self⟩
    obtain rfl := leads_ask_iff.mp hname
    obtain ⟨f, hfail, rfl⟩ | ⟨before, peers, after, hothers, hpure, rfl⟩ :=
      leads_bind_except_iff.mp hrest
    · obtain ⟨peers, herror, -⟩ | ⟨-, -, other, hother, hfails⟩ := ih hfail
      · cases herror
      · exact .inr ⟨f, rfl, other, List.mem_cons_of_mem _ hother,
          hfails.mono (List.subset_append_right _ _)⟩
    · obtain ⟨rfl, rfl⟩ := leads_pure_except_iff.mp hpure
      obtain ⟨found, hfound, hlength, rfl⟩ | ⟨f, herror, -⟩ := ih hothers
      · obtain rfl := Except.ok.inj hfound
        refine .inl ⟨known :: peers, rfl, congrArg (· + 1) hlength, ?_⟩
        rw [List.append_nil]
        rfl
      · cases herror

/-- Either all look-ups succeed, and the list is made from their answers, or one of them fails. -/
theorem leads_required {config : Config} {wanted : Bool} {es : List (Exchange Manager)}
    {r : Except Failure (List String)} (h : (required config wanted).run.Leads es r) :
    (∃ peers : List Peers, peers.length = config.packages.length ∧
      es = lookups config.packages peers ∧ r = .ok (listed config.packages peers wanted)) ∨
      ∃ f, r = .error f ∧ ∃ package ∈ config.packages, LookupFails es (latest package) := by
  -- a failure is about one of the texts that are looked up, each of which stands for a package
  have hpackage : ∀ {fs gs : List (Exchange Manager)}, fs ⊆ gs →
      (∃ name ∈ config.packages.map latest, LookupFails fs name) →
      ∃ package ∈ config.packages, LookupFails gs (latest package) := by
    rintro fs gs hsub ⟨name, hname, hfails⟩
    obtain ⟨package, hmem, rfl⟩ := List.mem_map.mp hname
    exact ⟨package, hmem, hfails.mono hsub⟩
  obtain ⟨f, hfail, rfl⟩ | ⟨looking, peers, after, hlookup, hpure, rfl⟩ :=
    leads_bind_except_iff.mp h
  · refine .inr ⟨f, rfl, ?_⟩
    obtain ⟨g, hstart, heq⟩ | ⟨starting, done, awaiting, hstart, hawait, rfl⟩ :=
      leads_bind_except_iff.mp hfail
    · obtain ⟨hok, -⟩ | ⟨_, -, hfails⟩ := leads_startAll hstart
      · cases hok
      · exact hpackage (List.Subset.refl _) hfails
    · obtain ⟨_, hok, -⟩ | ⟨_, -, hfails⟩ := leads_awaitAll hawait
      · cases hok
      · exact hpackage (List.subset_append_right _ _) hfails
  · obtain ⟨rfl, rfl⟩ := leads_pure_except_iff.mp hpure
    obtain ⟨starting, done, awaiting, hstart, hawait, rfl⟩ := exists_of_leads_bind_ok hlookup
    obtain ⟨-, rfl⟩ | ⟨_, herror, -⟩ := leads_startAll hstart
    · obtain ⟨found, hfound, hlength, rfl⟩ | ⟨_, herror, -⟩ := leads_awaitAll hawait
      · obtain rfl := Except.ok.inj hfound
        rw [List.length_map] at hlength
        refine .inl ⟨peers, hlength, ?_, congrArg Except.ok (needed_eq_listed config peers wanted)⟩
        rw [List.append_nil, List.map_map, List.zipWith_map_left]
        rfl
      · cases herror
    · cases herror

/-- **The packages that a configuration needs.**  Whoever the package manager is, there is no list if
and only if the look-up of a package that the configuration names fails.  Otherwise each of these
packages was looked up in its latest version, and the list is made from the maps of peers that were
the answers: no name is on it twice, the names stand as `listedNames` says, and each has the range
that the last map to mention it gives it. -/
theorem listed_required (config : Config) (wanted : Bool) {es : List (Exchange Manager)}
    {r : Except Failure (List String)} (h : (required config wanted).run.Leads es r) :
    ((∃ f, r = .error f) ↔ ∃ package ∈ config.packages, LookupFails es (latest package)) ∧
    ∀ all, r = .ok all → ∃ peers : List Peers, peers.length = config.packages.length ∧
      es = lookups config.packages peers ∧ (listedNames config.packages peers).Nodup ∧
      all = listed config.packages peers wanted := by
  obtain ⟨peers, hlength, rfl, rfl⟩ | ⟨f, rfl, hfails⟩ := leads_required h
  · refine ⟨⟨?_, ?_⟩, ?_⟩
    · rintro ⟨f, hf⟩
      cases hf
    · rintro ⟨package, -, hfails⟩
      exact absurd hfails (not_lookupFails_lookups _ _ _)
    · rintro all hall
      obtain rfl := Except.ok.inj hall
      exact ⟨peers, hlength, rfl, nodup_listedNames _ _, rfl⟩
  · refine ⟨iff_of_true ⟨f, rfl⟩ hfails, ?_⟩
    rintro all hall
    cases hall

/-! ## Peers that mention each other -/

theorem leads_startAll_ok (names : List String) :
    (startAll names).run.Leads (names.map fun name => ⟨.startLookup name, Except.ok ()⟩)
      (.ok ()) := by
  induction names with
  | nil => exact leads_pure_except_iff.mpr ⟨rfl, rfl⟩
  | cons name rest ih => exact (leads_ask_iff.mpr rfl : (startLookup name).run.Leads _ _).bind_ok ih

theorem leads_awaitAll_ok {names : List String} {peers : List Peers}
    (h : peers.length = names.length) :
    (awaitAll names).run.Leads
      (List.zipWith (fun name known => ⟨.awaitLookup name, Except.ok known⟩) names peers)
      (.ok peers) := by
  induction names generalizing peers with
  | nil =>
    obtain rfl := List.length_eq_zero_iff.mp h
    exact leads_pure_except_iff.mpr ⟨rfl, rfl⟩
  | cons name rest ih =>
    obtain ⟨known, others, rfl⟩ := List.exists_cons_of_length_eq_add_one h
    have hothers := (ih (Nat.succ.inj h)).bind_ok (f := fun found => pure (known :: found))
      (leads_pure_except_iff.mpr ⟨rfl, rfl⟩)
    rw [List.append_nil] at hothers
    exact (leads_ask_iff.mpr rfl : (awaitLookup name).run.Leads _ _).bind_ok hothers

/-- Any answers to the look-ups make a list. -/
theorem leads_lookups (config : Config) (wanted : Bool) {peers : List Peers}
    (h : peers.length = config.packages.length) :
    (required config wanted).run.Leads (lookups config.packages peers)
      (.ok (listed config.packages peers wanted)) := by
  have hlength : peers.length = (config.packages.map latest).length := by rw [h, List.length_map]
  have hlookup := (leads_startAll_ok (config.packages.map latest)).bind_ok
    (f := fun _ => awaitAll (config.packages.map latest)) (leads_awaitAll_ok hlength)
  have hrequired := Leads.bind_ok (f := fun found => pure (needed config found wanted)) hlookup
    (leads_pure_except_iff.mpr ⟨rfl, rfl⟩)
  rw [List.append_nil, List.map_map, List.zipWith_map_left, needed_eq_listed] at hrequired
  exact hrequired

/-- A configuration with a plugin and with a base that has the same plugin as its peer. -/
def reactAirbnb : Config :=
  ⟨[("extends", .arr [.str "eslint:recommended", .str "plugin:react/recommended", .str "airbnb"]),
    ("plugins", .arr [.str "react"])]⟩

/-- The peers of the plugin, and those of the base. -/
def reactAirbnbPeers : List Peers :=
  [[("eslint", .str "^3.0.0 || ^4.0.0")],
    [("eslint", .str "^4.9.0"), ("eslint-plugin-react", .str "^7.4.0")]]

theorem listed_required_reactAirbnb :
    (∃ peers : List Peers, peers.length = reactAirbnb.packages.length ∧
      lookups reactAirbnb.packages reactAirbnbPeers = lookups reactAirbnb.packages peers ∧
      (listedNames reactAirbnb.packages peers).Nodup ∧
      listed reactAirbnb.packages reactAirbnbPeers true = listed reactAirbnb.packages peers true) ∧
    listed reactAirbnb.packages reactAirbnbPeers true =
      ["eslint-plugin-react@^7.4.0", "eslint-config-airbnb@latest", "eslint@^4.9.0"] :=
  ⟨(listed_required reactAirbnb true (leads_lookups reactAirbnb true rfl)).2 _ rfl,
    by decide +kernel⟩

end LintSetup.Packages
