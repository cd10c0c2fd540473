import LintSetup.Packages.Conflict
import LintSetup.Proofs.Members
import Mathlib.Data.List.Basic

/-!
# The linter on a list of packages

The list of the packages that a configuration needs is made from members whose keys are distinct, but
it is a list of texts, each a name and a version range with a sign between them, and the range that
the list demands of the linter is found by how an entry begins.  No other name contains the sign in
the place where the linter's name ends (`isLinter_spec_iff`), unless a peer is named that way.

So the linter is on the list once, and the list without it is the same list with that entry left out
(`exists_hasLinter`).  What the list demands is the range of that entry
(`HasLinter.demandedRange?_eq`), and where this is in conflict with another range the list has other
entries too (`HasLinter.packages_ne_nil`), as the linter alone is wanted in its latest version.
-/

namespace LintSetup

namespace Text

theorem afterStart?_eq_some_iff {start s rest : String} :
    afterStart? start s = some rest ↔ s = start ++ rest := by
  rw [afterStart?, Option.map_eq_some_iff]
  constructor
  · rintro ⟨cs, hcs, rfl⟩
    rw [← String.toList_inj, String.toList_append, String.toList_ofList,
      List.isPrefixOf?_eq_some_iff_append_eq.mp hcs]
  · rintro rfl
    refine ⟨rest.toList, ?_, String.ofList_toList⟩
    rw [List.isPrefixOf?_eq_some_iff_append_eq, String.toList_append]

theorem hasStart_iff {start s : String} : hasStart start s = true ↔ ∃ rest, s = start ++ rest := by
  simp only [hasStart, Option.isSome_iff_exists, afterStart?_eq_some_iff]

end Text

namespace Packages

/-- The packages that a configuration needs, if those that it names have certain peers. -/
def needed (config : Config) (peers : List Peers) (wanted : Bool) : List String :=
  (withLinter wanted (merge config.packages peers)).map spec

/-- Whether an entry on a list of packages is for the linter itself. -/
def isLinter (entry : String) : Bool := Text.hasStart (linterName ++ "@") entry

/-- A list of packages has the linter on it once, with a version range, and is otherwise another
list. -/
def HasLinter (range : String) (all others : List String) : Prop :=
  ∃ front back, all = front ++ (linterName ++ "@" ++ range) :: back ∧ others = front ++ back ∧
    ∀ entry ∈ others, isLinter entry = false

/-- A range as it stands in an entry. -/
def rangeText : Json → String
  | .str range => range
  | range => range.compact

theorem spec_eq (name : String) (range : Json) :
    spec (name, range) = name ++ "@" ++ rangeText range := by
  cases range <;> rfl

theorem isLinter_spec_self (range : Json) : isLinter (spec (linterName, range)) = true :=
  Text.hasStart_iff.mpr ⟨rangeText range, spec_eq linterName range⟩

/-- An entry is for the linter if its package is the linter's, as no other name starts like it. -/
theorem isLinter_spec_iff {name : String} (range : Json) (hname : isLinter name = false) :
    isLinter (spec (name, range)) = true ↔ name = linterName := by
  constructor
  · intro h
    obtain ⟨rest, hrest⟩ := Text.hasStart_iff.mp h
    have hlists := congrArg String.toList hrest
    rw [spec_eq] at hlists
    simp only [String.toList_append, List.append_assoc] at hlists
    have hat : "@".toList = ['@'] := rfl
    rw [hat] at hlists
    rcases List.append_eq_append_iff.mp hlists with ⟨more, hlonger, htail⟩ | ⟨more, hlonger, htail⟩
    · cases more with
      | nil => rw [← String.toList_inj, hlonger, List.append_nil]
      | cons c more =>
        -- the sign after the name would be a character of the linter's name
        have hc : '@' ∈ linterName.toList := by
          rw [hlonger, (List.cons.inj htail).1]
          simp
        exact absurd hc (by decide)
    · cases more with
      | nil => rw [← String.toList_inj, hlonger, List.append_nil]
      | cons c more =>
        have hstart : isLinter name = true := by
          refine Text.hasStart_iff.mpr ⟨String.ofList more, ?_⟩
          rw [← String.toList_inj, hlonger, ← (List.cons.inj htail).1]
          simp [hat]
        rw [hname] at hstart
        cases hstart
  · rintro rfl
    exact isLinter_spec_self range

/-! ## The merged members -/

theorem nodup_keys_merge (packages : List String) (peers : List Peers) :
    (Members.keys (merge packages peers)).Nodup := by
  refine Members.nodup_keys_foldl_set peers.flatten ?_
  exact Members.nodup_keys_foldl_set (packages.map fun p => (p, Json.str "latest")) .nil

theorem mem_keys_merge {packages : List String} {peers : List Peers} {name : String} :
    name ∈ Members.keys (merge packages peers) ↔
      name ∈ packages ∨ ∃ found ∈ peers, name ∈ Members.keys found := by
  have hnamed :
      name ∈ Members.keys (Members.ofList (packages.map fun p => (p, Json.str "latest"))) ↔
        name ∈ packages := by
    refine (Members.mem_keys_foldl_set (packages.map fun p => (p, Json.str "latest"))).trans ?_
    simp [Members.keys]
  have hpeers : name ∈ Members.keys peers.flatten ↔ ∃ found ∈ peers, name ∈ Members.keys found := by
    simp only [Members.keys, List.mem_map, List.mem_flatten]
    constructor
    · rintro ⟨m, ⟨found, hfound, hm⟩, rfl⟩
      exact ⟨found, hfound, m, hm, rfl⟩
    · rintro ⟨found, hfound, m, hm, rfl⟩
      exact ⟨m, ⟨found, hfound, hm⟩, rfl⟩
  rw [← hnamed, ← hpeers]
  exact Members.mem_keys_foldl_set peers.flatten

/-- A package that a configuration names is a plugin or a shareable configuration. -/
theorem exists_of_mem_packages {config : Config} {name : String} (h : name ∈ config.packages) :
    ∃ rest, name = "eslint-" ++ rest := by
  rcases List.mem_append.mp h with h | h
  · obtain ⟨plugin, -, rfl⟩ := List.mem_map.mp h
    exact ⟨"plugin-" ++ plugin, by rw [← String.append_assoc]; rfl⟩
  · obtain ⟨base, -, rfl⟩ := List.mem_map.mp h
    exact ⟨"config-" ++ base, by rw [← String.append_assoc]; rfl⟩

theorem ne_linterName_of_mem_packages {config : Config} {name : String}
    (h : name ∈ config.packages) : name ≠ linterName := by
  obtain ⟨rest, rfl⟩ := exists_of_mem_packages h
  intro heq
  have hlists := congrArg String.toList heq
  simp [linterName] at hlists

theorem isLinter_of_mem_packages {config : Config} {name : String} (h : name ∈ config.packages) :
    isLinter name = false := by
  obtain ⟨rest, rfl⟩ := exists_of_mem_packages h
  rw [← Bool.not_eq_true]
  intro hlinter
  obtain ⟨range, hrange⟩ := Text.hasStart_iff.mp hlinter
  have hlists := congrArg String.toList hrange
  simp [linterName] at hlists

/-! ## The linter on the list -/

theorem mem_keys_withLinter_true {all : Members Json} {name : String} :
    name ∈ Members.keys (withLinter true all) ↔ name = linterName ∨ name ∈ Members.keys all := by
  rw [withLinter, if_pos rfl, Members.setNew]
  split
  · next hhas =>
    have hmem := (Members.has_iff_mem_keys all linterName).mp hhas
    exact ⟨.inr, fun h => h.elim (fun heq => heq ▸ hmem) id⟩
  · rw [Members.keys_append, List.mem_append, or_comm]
    simp [Members.keys]

theorem nodup_keys_withLinter_true {all : Members Json} (h : (Members.keys all).Nodup) :
    (Members.keys (withLinter true all)).Nodup := by
  rw [withLinter, if_pos rfl, Members.setNew]
  split
  · exact h
  · next hhas =>
    have hkey : linterName ∉ Members.keys all :=
      Members.has_eq_false_iff.mp (Bool.eq_false_iff.mpr hhas)
    rw [← Members.set_eq_append hkey]
    exact Members.nodup_keys_set h _ _

/-- The list without the linter is the one with it, with the linter's entry taken away. -/
theorem erase_withLinter_true (all : Members Json) :
    Members.erase (withLinter true all) linterName = withLinter false all := by
  rw [withLinter, if_pos rfl, withLinter, if_neg Bool.false_ne_true, Members.setNew]
  split
  · rfl
  · rw [Members.erase_append]
    simp [Members.erase]

/-- The linter is on the list once, and the list without the linter is otherwise the same. -/
theorem exists_hasLinter (config : Config) {peers : List Peers}
    (hnames : ∀ found ∈ peers, ∀ name ∈ Members.keys found, isLinter name = false) :
    ∃ range, HasLinter range (needed config peers true) (needed config peers false) := by
  have hnodup := nodup_keys_withLinter_true (nodup_keys_merge config.packages peers)
  have hmem : linterName ∈ Members.keys (withLinter true (merge config.packages peers)) :=
    mem_keys_withLinter_true.mpr (.inl rfl)
  have hfree : ∀ name ∈ Members.keys (withLinter true (merge config.packages peers)),
      isLinter name = false := by
    intro name hname
    rcases mem_keys_withLinter_true.mp hname with rfl | hname
    · decide
    · rcases mem_keys_merge.mp hname with hname | ⟨found, hfound, hname⟩
      · exact isLinter_of_mem_packages hname
      · exact hnames found hfound name hname
  rw [needed, needed, ← erase_withLinter_true]
  generalize withLinter true (merge config.packages peers) = all at hnodup hmem hfree ⊢
  obtain ⟨⟨-, range⟩, hentry, rfl⟩ := List.mem_map.mp hmem
  obtain ⟨front, back, rfl⟩ := List.append_of_mem hentry
  have hfresh : linterName ∉ Members.keys front ∧ linterName ∉ Members.keys back := by
    rw [Members.keys_append] at hnodup
    obtain ⟨hnew, -⟩ := List.nodup_cons.mp (List.nodup_middle.mp hnodup)
    exact not_or.mp (mt List.mem_append.mpr hnew)
  have herased : Members.erase (front ++ (linterName, range) :: back) linterName = front ++ back := by
    rw [Members.erase_append, Members.erase_cons, if_pos rfl, Members.erase_eq_self hfresh.1,
      Members.erase_eq_self hfresh.2]
  refine ⟨rangeText range, front.map spec, back.map spec, ?_, ?_, ?_⟩
  · rw [List.map_append, List.map_cons, spec_eq]
  · rw [herased, List.map_append]
  · rw [herased, List.forall_mem_map]
    rintro ⟨name, range'⟩ hm
    have hkey : name ∈ Members.keys front ++ Members.keys back := by
      rw [← Members.keys_append]
      exact Members.mem_keys_of_mem hm
    have hname : isLinter name = false := by
      refine hfree name ?_
      rw [Members.keys_append]
      exact (List.mem_append.mp hkey).elim (List.mem_append_left _) fun h =>
        List.mem_append_right _ (List.mem_cons_of_mem _ h)
    rw [← Bool.not_eq_true, isLinter_spec_iff range' hname]
    rintro rfl
    exact (List.mem_append.mp hkey).elim hfresh.1 hfresh.2

/-! ## The range that the list demands -/

theorem HasLinter.ne_nil {range : String} {all others : List String}
    (h : HasLinter range all others) : all ≠ [] := by
  obtain ⟨front, back, rfl, -, -⟩ := h
  exact List.append_ne_nil_of_right_ne_nil front (List.cons_ne_nil _ back)

/-- The demanded range is the one of the only entry for the linter. -/
theorem HasLinter.demandedRange?_eq {range : String} {all others : List String}
    (h : HasLinter range all others) :
    demandedRange? all = (some range).filter Range.isValid := by
  obtain ⟨front, back, rfl, rfl, hothers⟩ := h
  have hfront : front.findSome? (Text.afterStart? (linterName ++ "@")) = none := by
    rw [List.findSome?_eq_none_iff]
    intro entry hentry
    have hother := hothers entry (List.mem_append_left back hentry)
    exact Option.isNone_iff_eq_none.mp (Option.isSome_eq_false_iff.mp hother)
  rw [demandedRange?, List.findSome?_append, hfront, Option.none_or, List.findSome?_cons,
    Text.afterStart?_eq_some_iff.mpr rfl]

/-- A conflict is about the range of the only entry for the linter. -/
theorem HasLinter.expected_of_conflict {range actual : String} {all others : List String}
    {c : Conflict} (h : HasLinter range all others) (hc : Conflict.of? actual all = some c) :
    c.expected = range ∧ Range.isValid range = true := by
  rw [Conflict.of?, h.demandedRange?_eq, Option.bind_eq_some_iff] at hc
  obtain ⟨expected, hexpected, hconflict⟩ := hc
  obtain ⟨hrange, hvalid⟩ := Option.filter_eq_some_iff.mp hexpected
  obtain rfl := Option.some.inj hrange
  split at hconflict
  · cases hconflict
  · rw [← Option.some.inj hconflict]
    exact ⟨rfl, hvalid⟩

/-- A package that a configuration names is on the list, with and without the linter. -/
theorem needed_ne_nil {config : Config} (h : config.packages ≠ []) (peers : List Peers)
    (wanted : Bool) : needed config peers wanted ≠ [] := by
  obtain ⟨name, hname⟩ := List.exists_mem_of_ne_nil _ h
  have hmerged : name ∈ Members.keys (merge config.packages peers) := mem_keys_merge.mpr (.inl hname)
  have hkept : name ∈ Members.keys (withLinter wanted (merge config.packages peers)) := by
    cases wanted with
    | true => exact mem_keys_withLinter_true.mpr (.inr hmerged)
    | false =>
      obtain ⟨m, hm, rfl⟩ := List.mem_map.mp hmerged
      refine List.mem_map_of_mem (List.mem_filter.mpr ⟨hm, ?_⟩)
      exact bne_iff_ne.mpr (ne_linterName_of_mem_packages hname)
  obtain ⟨m, hm, -⟩ := List.mem_map.mp hkept
  exact List.ne_nil_of_mem (List.mem_map_of_mem hm)

/-- The latest version is no range. -/
theorem isValid_latest : Range.isValid "latest" = false := by decide +kernel

/-- Without any package the linter is on the list in its latest version, which is no range. -/
theorem HasLinter.packages_ne_nil {config : Config} {peers : List Peers} {range : String}
    {others : List String} (h : HasLinter range (needed config peers true) others)
    (hlength : peers.length = config.packages.length) (hvalid : Range.isValid range = true) :
    config.packages ≠ [] := by
  intro hnil
  obtain rfl : peers = [] := List.eq_nil_of_length_eq_zero (by rw [hlength, hnil]; rfl)
  have hall : needed config [] true = [linterName ++ "@" ++ "latest"] := by
    rw [needed, hnil]
    rfl
  have hdemanded := h.demandedRange?_eq
  rw [hall, demandedRange?, List.findSome?_cons, Text.afterStart?_eq_some_iff.mpr rfl] at hdemanded
  have hlatest : (some "latest").filter Range.isValid = some range := by
    rw [hdemanded, Option.filter_some, if_pos hvalid]
  obtain ⟨heq, -⟩ := Option.filter_eq_some_iff.mp hlatest
  rw [← Option.some.inj heq, isValid_latest] at hvalid
  cases hvalid

end Packages
end LintSetup
