import LintSetup.File.Path
import Mathlib.Data.List.Basic

/-!
# The steps of a path

A path is cut into steps at its slashes, and putting the steps together again gives the path back.
Put together from steps without slashes, a path has just these steps, and where it can be cut in two
at a slash is where one of the steps ends.
-/

namespace LintSetup.Path

/-! ## Cutting a text -/

theorem cutAt_append (sep : Char) (cs ds : List Char) :
    Text.cutAt sep (cs ++ sep :: ds) = Text.cutAt sep cs ++ Text.cutAt sep ds := by
  induction cs with
  | nil => simp [Text.cutAt]
  | cons c cs ih =>
    rw [List.cons_append, Text.cutAt, Text.cutAt, ih]
    split
    · rfl
    · obtain ⟨piece, rest, h⟩ := List.exists_cons_of_ne_nil (Text.cutAt_ne_nil sep cs)
      rw [h]
      rfl

theorem cutAt_eq_singleton {sep : Char} {cs : List Char} (h : sep ∉ cs) :
    Text.cutAt sep cs = [cs] := by
  induction cs with
  | nil => rfl
  | cons c cs ih =>
    obtain ⟨hc, hcs⟩ := not_or.mp (mt List.mem_cons.mpr h)
    rw [Text.cutAt, if_neg (Ne.symm hc), ih hcs]

theorem intercalate_cutAt (sep : Char) (cs : List Char) :
    [sep].intercalate (Text.cutAt sep cs) = cs := by
  induction cs with
  | nil => rfl
  | cons c cs ih =>
    obtain ⟨piece, rest, h⟩ := List.exists_cons_of_ne_nil (Text.cutAt_ne_nil sep cs)
    rw [h] at ih
    rw [Text.cutAt]
    split
    · next hc => rw [h, List.intercalate_cons_cons, ih, hc, List.nil_append, List.singleton_append]
    · rw [h]
      cases rest with
      | nil => rw [← ih, List.intercalate_singleton, List.intercalate_singleton]
      | cons next rest =>
        rw [← ih, List.intercalate_cons_cons, List.intercalate_cons_cons]
        rfl

theorem notMem_of_mem_cutAt {sep : Char} {cs piece : List Char} (h : piece ∈ Text.cutAt sep cs) :
    sep ∉ piece := by
  induction cs generalizing piece with
  | nil =>
    rw [List.mem_singleton.mp h]
    exact List.not_mem_nil
  | cons c cs ih =>
    rw [Text.cutAt] at h
    obtain ⟨first, rest, hcut⟩ := List.exists_cons_of_ne_nil (Text.cutAt_ne_nil sep cs)
    have hfirst : sep ∉ first := ih (hcut ▸ List.mem_cons_self)
    split at h
    · obtain rfl | h := List.mem_cons.mp h
      · exact List.not_mem_nil
      · exact ih h
    · next hc =>
      rw [hcut] at h
      obtain rfl | h := List.mem_cons.mp h
      · exact List.not_mem_cons_of_ne_of_not_mem (Ne.symm hc) hfirst
      · exact ih (hcut ▸ List.mem_cons_of_mem first h)

/-! ## Steps -/

theorem steps_ne_nil (p : String) : steps p ≠ [] :=
  mt List.map_eq_nil_iff.mp (Text.cutAt_ne_nil '/' p.toList)

theorem slashless_of_mem_steps {p s : String} (h : s ∈ steps p) : '/' ∉ s.toList := by
  obtain ⟨piece, hpiece, rfl⟩ := List.mem_map.mp h
  rw [String.toList_ofList]
  exact notMem_of_mem_cutAt hpiece

theorem steps_append (p q : String) : steps (p ++ "/" ++ q) = steps p ++ steps q := by
  have htext : (p ++ "/" ++ q).toList = p.toList ++ '/' :: q.toList := by simp
  rw [steps, Text.pieces, htext, cutAt_append, List.map_append]
  rfl

theorem steps_eq_singleton {p : String} (h : '/' ∉ p.toList) : steps p = [p] := by
  rw [steps, Text.pieces, cutAt_eq_singleton h, List.map_singleton, String.ofList_toList]

/-- The steps of a path give it back. -/
theorem intercalate_steps (p : String) : "/".intercalate (steps p) = p := by
  rw [← String.toList_inj, String.toList_intercalate, steps, Text.pieces, List.map_map]
  have hid : String.toList ∘ String.ofList = id := funext fun _ => String.toList_ofList
  rw [hid, List.map_id]
  exact intercalate_cutAt '/' p.toList

/-- A path that is put together from steps has these steps. -/
theorem steps_intercalate {ss : List String} (hne : ss ≠ []) (hs : ∀ s ∈ ss, '/' ∉ s.toList) :
    steps ("/".intercalate ss) = ss := by
  induction ss with
  | nil => exact absurd rfl hne
  | cons s ss ih =>
    obtain ⟨hfirst, hrest⟩ := List.forall_mem_cons.mp hs
    by_cases hss : ss = []
    · rw [hss, String.intercalate_singleton, steps_eq_singleton hfirst]
    · rw [String.intercalate_cons_of_ne_nil hss, steps_append, steps_eq_singleton hfirst,
        ih hss hrest]
      rfl

theorem take_ne_nil {ss : List String} {k : Nat} (hpos : 0 < k) (hle : k ≤ ss.length) :
    ss.take k ≠ [] := by
  rw [ne_eq, List.take_eq_nil_iff, not_or]
  exact ⟨Nat.ne_of_gt hpos, List.ne_nil_of_length_pos (Nat.lt_of_lt_of_le hpos hle)⟩

/-- Some of the steps of a path, from the first on, and the others. -/
theorem intercalate_take_drop {ss : List String} {k : Nat} (hpos : 0 < k) (hlt : k < ss.length) :
    "/".intercalate (ss.take k) ++ "/" ++ "/".intercalate (ss.drop k) = "/".intercalate ss := by
  have hdrop : ss.drop k ≠ [] := by
    rw [ne_eq, List.drop_eq_nil_iff]
    exact Nat.not_le_of_lt hlt
  rw [← String.intercalate_append_of_ne_nil (take_ne_nil hpos (Nat.le_of_lt hlt)) hdrop,
    List.take_append_drop]

/-- **Where a path can be cut.**  Its two parts at a slash are put together from its first steps and
from the others. -/
theorem intercalate_eq_append_slash_iff {ss : List String} {a b : String} (hne : ss ≠ [])
    (hs : ∀ s ∈ ss, '/' ∉ s.toList) :
    "/".intercalate ss = a ++ "/" ++ b ↔
      ∃ k, 0 < k ∧ k < ss.length ∧ a = "/".intercalate (ss.take k) ∧
        b = "/".intercalate (ss.drop k) := by
  constructor
  · intro h
    have hsteps : ss = steps a ++ steps b := by
      rw [← steps_append, ← h, steps_intercalate hne hs]
    have hpos : ∀ p, 0 < (steps p).length := fun p => List.length_pos_of_ne_nil (steps_ne_nil p)
    refine ⟨(steps a).length, hpos a, ?_, ?_, ?_⟩
    · rw [hsteps, List.length_append]
      exact Nat.lt_add_of_pos_right (hpos b)
    · rw [hsteps, List.take_left, intercalate_steps]
    · rw [hsteps, List.drop_left, intercalate_steps]
  · rintro ⟨k, hpos, hlt, rfl, rfl⟩
    exact (intercalate_take_drop hpos hlt).symm

end LintSetup.Path
