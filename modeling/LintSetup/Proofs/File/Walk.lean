import LintSetup.File.Listing
import LintSetup.Proofs.File.Below
import LintSetup.Proofs.Members
import Mathlib.Data.String.Basic
import Mathlib.Tactic.Choose

/-!
# What a walk finds
-/

namespace LintSetup.Node

/-! ## Well-named trees -/

/-- A tree in which the entries of every directory have names, each a different one. -/
inductive WellNamed : Node → Prop
  | file (content : Text.Bytes) (executable : Bool) : WellNamed (.file content executable)
  | link (target : String) : WellNamed (.link target)
  | dir {entries : List (String × Node)} (names : ∀ e ∈ entries, Path.IsName e.1)
    (distinct : (Members.keys entries).Nodup) (nodes : ∀ e ∈ entries, WellNamed e.2) :
    WellNamed (.dir entries)

/-- A tree has a file at names. -/
def HasFile (n : Node) (names : List String) : Prop :=
  ∃ content executable, n.at? names = some (.file content executable)

theorem at?_cons (n : Node) (name : String) (names : List String) :
    n.at? (name :: names) = (n.entry? name).bind (·.at? names) := rfl

theorem hasFile_file_iff {content : Text.Bytes} {executable : Bool} {names : List String} :
    (file content executable).HasFile names ↔ names = [] := by
  cases names with
  | nil => exact iff_of_true ⟨content, executable, rfl⟩ rfl
  | cons name names =>
    refine iff_of_false ?_ (List.cons_ne_nil name names)
    rintro ⟨_, _, h⟩
    cases h

theorem not_hasFile_link {target : String} {names : List String} :
    ¬ (link target).HasFile names := by
  rintro ⟨content, executable, h⟩
  cases names with
  | nil => cases h
  | cons => cases h

theorem hasFile_dir_cons {entries : List (String × Node)} {name : String} {names : List String} :
    (dir entries).HasFile (name :: names) ↔
      ∃ n, Members.get? entries name = some n ∧ n.HasFile names := by
  simp only [HasFile, at?_cons, entry?, Option.bind_eq_some_iff]
  constructor
  · rintro ⟨content, executable, n, hn, h⟩
    exact ⟨n, hn, content, executable, h⟩
  · rintro ⟨n, hn, content, executable, h⟩
    exact ⟨content, executable, n, hn, h⟩

theorem WellNamed.at? {n m : Node} (hn : n.WellNamed) {names : List String}
    (h : n.at? names = some m) : m.WellNamed := by
  induction names generalizing n with
  | nil =>
    cases h
    exact hn
  | cons name names ih =>
    rw [at?_cons, Option.bind_eq_some_iff] at h
    obtain ⟨e, he, h⟩ := h
    cases hn with
    | file => cases he
    | link => cases he
    | dir _ _ nodes => exact ih (nodes (name, e) (Members.mem_of_get? he)) h

/-- The names on the way to a file are names. -/
theorem WellNamed.isName {n : Node} (hn : n.WellNamed) {names : List String}
    (h : n.HasFile names) : ∀ name ∈ names, Path.IsName name := by
  induction names generalizing n with
  | nil => simp
  | cons name names ih =>
    cases hn with
    | file => exact absurd (hasFile_file_iff.mp h) (List.cons_ne_nil name names)
    | link => exact absurd h not_hasFile_link
    | dir hnames _ nodes =>
      obtain ⟨m, hm, h⟩ := hasFile_dir_cons.mp h
      have hmem := Members.mem_of_get? hm
      exact List.forall_mem_cons.mpr ⟨hnames _ hmem, ih (nodes _ hmem) h⟩

/-! ## The order of a walk -/

/-- A list has the files of a tree that are kept, as paths below the path of the tree, in the order
of a walk: depth first, and in every directory by name. -/
def Lists (n : Node) (path : String) (keeps : List String → Prop) (found : List String) : Prop :=
  ∃ all : List (List String), found = all.map (Path.below path) ∧ all.Pairwise (· < ·) ∧
    ∀ names, names ∈ all ↔ n.HasFile names ∧ keeps names

/-- Nothing on the way to names is passed over. -/
def Passes (skip : String → String → Bool) : String → List String → Prop
  | _, [] => True
  | path, name :: names =>
    skip name (Path.join path name) = false ∧ Passes skip (Path.join path name) names

theorem Lists.filter {n : Node} {path : String} {keeps : List String → Prop} {found : List String}
    (h : n.Lists path keeps found) (p : String → Bool) :
    n.Lists path (fun names => keeps names ∧ p (Path.below path names) = true)
      (found.filter p) := by
  obtain ⟨all, rfl, hsorted, hmem⟩ := h
  refine ⟨all.filter (p ∘ Path.below path), List.filter_map, hsorted.filter _, fun names => ?_⟩
  rw [List.mem_filter, hmem, and_assoc]
  rfl

theorem Lists.congr {n : Node} {path : String} {keeps keeps' : List String → Prop}
    {found : List String} (h : n.Lists path keeps found)
    (hkeeps : ∀ names, n.HasFile names → (keeps names ↔ keeps' names)) :
    n.Lists path keeps' found := by
  obtain ⟨all, hfound, hsorted, hmem⟩ := h
  exact ⟨all, hfound, hsorted, fun names => (hmem names).trans (and_congr_right (hkeeps names))⟩

end LintSetup.Node
