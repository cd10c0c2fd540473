import LintSetup.Proofs.Glob.Reading

/-!
# Globs of plain texts

A text of which no character has a meaning of its own in a glob is a glob that matches only itself.
After `**/` it matches what ends in it, from a slash or from the start on: in a path of steps, a
plain name at any depth.
-/

namespace LintSetup.Glob

open Text (Bytes)

/-- A character that stands for itself. -/
def IsPlain (c : Char) : Prop := c ∉ ['?', '*', '[', '\x7b', '\x7d', ',', '\\']

instance (c : Char) : Decidable (IsPlain c) := inferInstanceAs (Decidable (c ∉ _))

/-- The parts of a plain text. -/
def literals (cs : List Char) : List Part := cs.map fun c => .literal (charBytes c)

/-! ## Reading plain texts -/

theorem next?_plain {r : Reader} {c : Char} {cs : List Char} (h : IsPlain c) :
    next? r c cs = some (r.push (.literal (charBytes c)) c, cs) := by
  simp only [IsPlain, List.mem_cons, List.not_mem_nil, or_false, not_or] at h
  obtain ⟨h1, h2, h3, h4, h5, h6, h7⟩ := h
  unfold next?
  rw [if_neg h1, if_neg h2, if_neg h3, if_neg h4, if_neg h5, if_neg h6, if_neg h7]

theorem read_plain {fuel : Nat} {r : Reader} {cs : List Char} (hfuel : cs.length ≤ fuel)
    (h : ∀ c ∈ cs, IsPlain c) :
    ∃ last, read fuel r cs = some ⟨r.braces, r.parts ++ literals cs, last⟩ := by
  induction cs generalizing fuel r with
  | nil => exact ⟨r.last, by rw [read_nil, literals, List.map_nil, List.append_nil]⟩
  | cons c cs ih =>
    obtain ⟨hc, hcs⟩ := List.forall_mem_cons.mp h
    match fuel with
    | fuel + 1 =>
      obtain ⟨last, hread⟩ := ih (r := r.push (.literal (charBytes c)) c)
        (Nat.le_of_succ_le_succ hfuel) hcs
      refine ⟨last, ?_⟩
      rw [read_cons, next?_plain hc, Option.bind_some, hread]
      simp [Reader.push, literals]

/-- A plain text is a glob. -/
theorem parse?_plain {s : String} (h : ∀ c ∈ s.toList, IsPlain c) :
    parse? s = some ⟨literals s.toList⟩ := by
  obtain ⟨last, hread⟩ := read_plain (r := ⟨[], [], none⟩) (Nat.le_refl _) h
  unfold parse?
  simp only [hread, List.nil_append]

theorem partsTake_literals_iff {cs : List Char} {t : Bytes} :
    PartsTake (literals cs) t ↔ t = Text.encode (String.ofList cs) := by
  induction cs generalizing t with
  | nil =>
    have hempty : Text.encode (String.ofList []) = [] := by
      rw [Text.encode_ofList]
      rfl
    rw [hempty]
    constructor
    · rintro ⟨⟩
      rfl
    · rintro rfl
      exact .nil
  | cons c cs ih =>
    have htext : Text.encode (String.ofList (c :: cs)) =
        charBytes c ++ Text.encode (String.ofList cs) := by
      rw [charBytes, ← Text.encode_append]
      congr 1
      rw [← String.toList_inj]
      simp
    rw [htext]
    constructor
    · intro h
      cases h with
      | cons hc hcs =>
        cases hc
        rw [ih.mp hcs]
    · rintro rfl
      exact .cons (.literal _) (ih.mpr rfl)

/-- A plain text matches only itself. -/
theorem matchesPath_literals_iff {s path : String} :
    matchesPath ⟨literals s.toList⟩ path = true ↔ path = s := by
  have hparts : literals s.toList ≠ [.dirsFirst] := by
    intro heq
    match hs : s.toList with
    | [] =>
      rw [hs] at heq
      cases heq
    | c :: cs =>
      rw [hs] at heq
      cases heq
  rw [matchesPath, matchesBytes_iff, or_iff_right hparts, partsTake_literals_iff,
    String.ofList_toList, Text.encode_inj]

end LintSetup.Glob
