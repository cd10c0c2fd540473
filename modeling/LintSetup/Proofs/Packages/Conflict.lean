import LintSetup.Proofs.Json.Record
import LintSetup.Proofs.Packages.Listed

/-!
# When versions of the linter are in conflict

One version range of the linter is read off a text, and the other one is found on a list of texts.
Both are described here by the data that they come from.

* `States` --- the text of a `package.json` states a range; `localRange?_eq_some_iff` and
  `localRange?_eq_error_iff` say what is made of any text.
* `Demands` --- maps of peers give the linter a range; the latest version, which stands on the list
  where no map mentions the linter, is none.
* `conflict_needed_iff` --- the conflict between the two.
-/

namespace LintSetup.Packages

/-! ## The range that a project states -/

/-- A text is JSON and states a version range of the linter among the development dependencies. -/
def States (text actual : String) : Prop :=
  ∃ members dependencies, Json.parse? (Text.trim text) = some (.obj members) ∧
    Members.get? members "devDependencies" = some (.obj dependencies) ∧
    Members.get? dependencies "eslint" = some (.str actual) ∧ Range.isValid actual = true

/-- A text is neither blank nor JSON. -/
def Malformed (text : String) : Prop := Text.trim text ≠ "" ∧ Json.parse? (Text.trim text) = none

theorem parse?_empty : Json.parse? "" = none := by decide +kernel

theorem not_states_of_blank {text actual : String} (h : Text.trim text = "") :
    ¬ States text actual := by
  rintro ⟨members, dependencies, hparse, -⟩
  rw [h, parse?_empty] at hparse
  cases hparse

theorem States.not_malformed {text actual : String} (h : States text actual) :
    ¬ Malformed text := by
  obtain ⟨members, dependencies, hparse, -⟩ := h
  rintro ⟨-, hnone⟩
  rw [hparse] at hnone
  cases hnone

/-- What the data of a text states. -/
theorem stated_eq_some_iff {data : Json} {actual : String} :
    ((((data.get? "devDependencies").bind (·.get? linterName)).bind Json.str?).filter
        Range.isValid) = some actual ↔
      ∃ members dependencies, data = .obj members ∧
        Members.get? members "devDependencies" = some (.obj dependencies) ∧
        Members.get? dependencies "eslint" = some (.str actual) ∧ Range.isValid actual = true := by
  simp only [Option.filter_eq_some_iff, Option.bind_eq_some_iff, Json.get?_eq_some_iff,
    Json.str?_eq_some_iff, linterName]
  constructor
  · rintro ⟨⟨_, ⟨_, ⟨members, rfl, hmember⟩, dependencies, rfl, hrange⟩, rfl⟩, hvalid⟩
    exact ⟨members, dependencies, rfl, hmember, hrange, hvalid⟩
  · rintro ⟨members, dependencies, rfl, hmember, hrange, hvalid⟩
    exact ⟨⟨_, ⟨_, ⟨members, rfl, hmember⟩, dependencies, rfl, hrange⟩, rfl⟩, hvalid⟩

theorem localRange?_of_blank {path text : String} (h : Text.trim text = "") :
    localRange? path text = .ok none := by
  rw [localRange?, if_pos (by rw [h]; rfl)]

theorem localRange?_of_malformed {path text : String} (h : Malformed text) :
    localRange? path text = .error (.during (.parseJson path) (.malformed .json)) := by
  rw [localRange?, if_neg (by simpa using h.1), h.2]

/-- A text that is neither blank nor malformed states the range that its data states. -/
theorem localRange?_of_parse? {path text : String} {data : Json}
    (h : Json.parse? (Text.trim text) = some data) :
    localRange? path text = .ok ((((data.get? "devDependencies").bind
      (·.get? linterName)).bind Json.str?).filter Range.isValid) := by
  have hblank : Text.trim text ≠ "" := by
    intro hblank
    rw [hblank, parse?_empty] at h
    cases h
  rw [localRange?, if_neg (by simpa using hblank), h]

/-- What is made of a text: it is blank, or malformed, or it has data. -/
theorem text_cases (text : String) :
    Text.trim text = "" ∨ Malformed text ∨ ∃ data, Json.parse? (Text.trim text) = some data := by
  by_cases hblank : Text.trim text = ""
  · exact .inl hblank
  · cases hparse : Json.parse? (Text.trim text) with
    | none => exact .inr (.inl ⟨hblank, hparse⟩)
    | some data => exact .inr (.inr ⟨data, rfl⟩)

theorem localRange?_eq_some_iff {path text actual : String} :
    localRange? path text = .ok (some actual) ↔ States text actual := by
  rcases text_cases text with h | h | ⟨data, h⟩
  · rw [localRange?_of_blank h]
    exact iff_of_false (by simp) (not_states_of_blank h)
  · rw [localRange?_of_malformed h]
    exact iff_of_false (by simp) fun hstates => hstates.not_malformed h
  · rw [localRange?_of_parse? h, Except.ok.injEq, stated_eq_some_iff]
    simp only [States, h, Option.some.injEq]

theorem localRange?_eq_error_iff {path text : String} :
    (∃ f, localRange? path text = .error f) ↔ Malformed text := by
  rcases text_cases text with h | h | ⟨data, h⟩
  · rw [localRange?_of_blank h]
    exact iff_of_false (by simp) fun hmalformed => hmalformed.1 h
  · rw [localRange?_of_malformed h]
    exact iff_of_true ⟨_, rfl⟩ h
  · rw [localRange?_of_parse? h]
    refine iff_of_false (by simp) ?_
    rintro ⟨-, hnone⟩
    rw [h] at hnone
    cases hnone

theorem States.unique {text actual other : String} (h : States text actual)
    (h' : States text other) : actual = other := by
  have hsame : localRange? "" text = .ok (some actual) := localRange?_eq_some_iff.mpr h
  rw [localRange?_eq_some_iff.mpr h'] at hsame
  exact (Option.some.inj (Except.ok.inj hsame)).symm

/-! ## The range that packages demand -/

/-- Several maps of peers give the linter a version range: the last of them that mentions it does. -/
def Demands (peers : List Peers) (expected : String) : Prop :=
  ∃ range, lastMention peers linterName = some range ∧ rangeText range = expected ∧
    Range.isValid expected = true

/-- The linter stands on the list with the range that the peers give it. -/
theorem listedEntry_mem_listed (packages : List String) (peers : List Peers) :
    listedEntry peers linterName ∈ listed packages peers true := by
  rw [listed, if_pos rfl]
  split
  · next hmem => exact List.mem_append_left _ (List.mem_map_of_mem hmem)
  · next hmem =>
    refine List.mem_append_right _ (List.mem_singleton.mpr ?_)
    rw [listedEntry, listedRange, lastMention_eq_none hmem]
    rfl

/-- What the peers demand is the range by the linter on the list, if it is a range at all. -/
theorem demands_iff {peers : List Peers} {expected : String} :
    Demands peers expected ↔
      (some (listedRange peers linterName)).filter Range.isValid = some expected := by
  rw [Option.filter_eq_some_iff, Option.some.injEq, listedRange, Demands]
  cases lastMention peers linterName with
  | some range => simp
  | none =>
    refine iff_of_false (by simp) ?_
    rintro ⟨rfl, hvalid⟩
    exact absurd (isValid_latest.symm.trans hvalid) Bool.false_ne_true

theorem demandedRange?_needed (config : Config) {peers : List Peers}
    (hnames : ∀ known ∈ peers, ∀ name ∈ Members.keys known, isLinter name = false) :
    demandedRange? (needed config peers true) =
      (some (listedRange peers linterName)).filter Range.isValid := by
  obtain ⟨range, hlinter⟩ := exists_hasLinter config hnames
  rw [hlinter.demandedRange?_eq]
  obtain ⟨front, back, hall, hless, hothers⟩ := hlinter
  rw [hless] at hothers
  have hentry := listedEntry_mem_listed config.packages peers
  rw [← needed_eq_listed, hall, List.mem_append, List.mem_cons, or_left_comm,
    ← List.mem_append] at hentry
  rcases hentry with heq | hother
  · rw [(String.append_right_inj _).mp heq]
  · -- no other entry begins like one for the linter
    have hself : isLinter (listedEntry peers linterName) = true :=
      Text.hasStart_iff.mpr ⟨listedRange peers linterName, rfl⟩
    rw [hothers _ hother] at hself
    cases hself

/-- Two ranges are in conflict if the project states one of them, the peers demand the other one, and
they have no version in common. -/
theorem conflict_needed_iff {config : Config} {peers : List Peers} {actual : String} {c : Conflict}
    (hnames : ∀ known ∈ peers, ∀ name ∈ Members.keys known, isLinter name = false) :
    Conflict.of? actual (needed config peers true) = some c ↔
      c.actual = actual ∧ Demands peers c.expected ∧
        Range.textsIntersect c.actual c.expected = false := by
  simp only [Conflict.of?, demandedRange?_needed config hnames, Option.bind_eq_some_iff,
    ← demands_iff]
  constructor
  · rintro ⟨expected, hdemands, hconflict⟩
    split at hconflict
    · cases hconflict
    · next hapart =>
      obtain rfl := Option.some.inj hconflict
      exact ⟨rfl, hdemands, Bool.eq_false_iff.mpr hapart⟩
  · rintro ⟨rfl, hdemands, hapart⟩
    exact ⟨c.expected, hdemands, by rw [hapart]; rfl⟩

end LintSetup.Packages
