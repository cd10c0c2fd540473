import LintSetup.Proofs.Json.Spelling
import LintSetup.Proofs.Members

/-!
# The characters of a compact text

Whoever reads a text piece by piece has to know at which characters it may be cut.  A compact text
has no control characters, since a quoted text escapes them (`le_toNat_of_mem_compactChars`).
Beyond ASCII nothing is escaped and nothing is made up: such a character occurs in the compact text
of a value exactly when it occurs in one of the texts in the value (`mem_compactChars_iff`).
-/

namespace LintSetup

namespace Json

mutual

/-- The texts in a value, at any depth: those that are values themselves, and the keys. -/
def texts : Json → List String
  | str s => [s]
  | arr items => textsOfItems items
  | obj members => textsOfMembers members
  | null | bool _ | num _ => []

/-- `texts` on lists. -/
def textsOfItems : List Json → List String
  | [] => []
  | v :: rest => texts v ++ textsOfItems rest

/-- `texts` on members. -/
def textsOfMembers : List (String × Json) → List String
  | [] => []
  | (k, v) :: rest => k :: (texts v ++ textsOfMembers rest)

end

theorem mem_textsOfMembers {s : String} {members : Members Json} :
    s ∈ textsOfMembers members ↔ ∃ m ∈ members, s = m.1 ∨ s ∈ texts m.2 := by
  induction members with
  | nil => simp [textsOfMembers]
  | cons m rest ih =>
    obtain ⟨k, v⟩ := m
    rw [textsOfMembers, List.mem_cons, List.mem_append, ih, ← or_assoc]
    simp

/-- A character occurs in one of several texts. -/
def OccursIn (c : Char) (texts : List String) : Prop := ∃ s ∈ texts, c ∈ s.toList

theorem occursIn_append {c : Char} {ss ts : List String} :
    OccursIn c (ss ++ ts) ↔ OccursIn c ss ∨ OccursIn c ts := by
  simp only [OccursIn, List.mem_append, or_and_right, exists_or]

theorem occursIn_cons {c : Char} {s : String} {ts : List String} :
    OccursIn c (s :: ts) ↔ c ∈ s.toList ∨ OccursIn c ts := by
  simp only [OccursIn, List.mem_cons, or_and_right, exists_or, exists_eq_left]

/-! ## What is written for a character -/

/-- The printable characters of ASCII.  All that is written is made of them, but for texts. -/
def IsPlain (c : Char) : Prop := 0x20 ≤ c.toNat ∧ c.toNat < 0x80

instance (c : Char) : Decidable (IsPlain c) := inferInstanceAs (Decidable (_ ∧ _))

theorem isPlain_of_all {cs : List Char} (h : (cs.all fun c => IsPlain c) = true) :
    ∀ c ∈ cs, IsPlain c :=
  fun c hc => of_decide_eq_true (List.all_eq_true.mp h c hc)

/-- A character that may be written where texts are: a plain one, or one that occurs in them and is
no control character. -/
def Shows (ts : List String) (c : Char) : Prop := IsPlain c ∨ 0x20 ≤ c.toNat ∧ OccursIn c ts

theorem Shows.mono {ss ts : List String} {c : Char} (h : Shows ss c) (hsub : ss ⊆ ts) :
    Shows ts c :=
  h.imp_right fun ⟨hlow, s, hs, hc⟩ => ⟨hlow, s, hsub hs, hc⟩

theorem isPlain_hexDigit : ∀ n < 16, IsPlain (hexDigit n) := by
  decide

theorem isPlain_of_isNumeral {c : Char} (h : isNumeral c = true) : IsPlain c := by
  simp only [isNumeral, Bool.or_eq_true, beq_iff_eq] at h
  rcases h with (((h | rfl) | rfl) | rfl) | rfl
  · simp only [Char.isDigit, Bool.and_eq_true, decide_eq_true_eq] at h
    have hlow : 48 ≤ c.toNat := UInt32.le_iff_toNat_le.mp h.1
    have hhigh : c.toNat ≤ 57 := UInt32.le_iff_toNat_le.mp h.2
    exact ⟨by omega, by omega⟩
  all_goals decide

/-- A character is written in plain ones, or as itself when it is no control character. -/
theorem mem_escapedChar {c d : Char} (h : d ∈ escapedChar c) :
    IsPlain d ∨ d = c ∧ 0x20 ≤ c.toNat := by
  have hshort (e : Char) (he : IsPlain e) (hd : d ∈ ['\\', e]) : IsPlain d := by
    rw [List.mem_cons, List.mem_singleton] at hd
    rcases hd with rfl | rfl
    · decide
    · exact he
  unfold escapedChar at h
  split_ifs at h with _ _ _ _ _ _ _ hcontrol
  iterate 7 exact .inl (hshort _ (by decide) h)
  · -- a long escape: the digits of a number below thirty-two
    have hstart : ∀ d ∈ ['\\', 'u', '0', '0'], IsPlain d := isPlain_of_all rfl
    have hall := List.forall_mem_append.mpr ⟨hstart, List.forall_mem_cons.mpr
      ⟨isPlain_hexDigit (c.toNat / 16) (by omega), List.forall_mem_singleton.mpr
        (isPlain_hexDigit (c.toNat % 16) (by omega))⟩⟩
    exact .inl (hall d h)
  · exact .inr ⟨List.mem_singleton.mp h, Nat.le_of_not_lt hcontrol⟩

/-- Beyond ASCII a character is written as itself. -/
theorem escapedChar_eq_self {c : Char} (h : 0x80 ≤ c.toNat) : escapedChar c = [c] := by
  have hne (d : Char) (hd : d.toNat < 0x80) : c ≠ d := by
    rintro rfl
    omega
  rw [escapedChar, if_neg (hne _ (by decide)), if_neg (hne _ (by decide)),
    if_neg (hne _ (by decide)), if_neg (hne _ (by decide)), if_neg (hne _ (by decide)),
    if_neg (hne _ (by decide)), if_neg (hne _ (by decide)), if_neg (by omega)]

/-! ## Where characters come from -/

theorem mem_quotedChars {s : String} {c : Char} (h : c ∈ quotedChars s) : Shows [s] c := by
  rw [quotedChars, List.mem_cons, List.mem_append, List.mem_singleton, List.mem_flatMap] at h
  rcases h with rfl | ⟨d, hd, hc⟩ | rfl
  · exact .inl (by decide)
  · obtain hplain | ⟨rfl, hlow⟩ := mem_escapedChar hc
    · exact .inl hplain
    · exact .inr ⟨hlow, s, List.mem_singleton_self s, hd⟩
  · exact .inl (by decide)

theorem mem_quotedChars_of_mem {s : String} {c : Char} (hc : c ∈ s.toList) (h : 0x80 ≤ c.toNat) :
    c ∈ quotedChars s := by
  have hmem : c ∈ s.toList.flatMap escapedChar :=
    List.mem_flatMap.mpr ⟨c, hc, by rw [escapedChar_eq_self h]; exact List.mem_singleton_self c⟩
  exact List.mem_cons_of_mem _ (List.mem_append_left _ hmem)

theorem mem_compactItems_cons {v : Json} {rest : List Json} {c : Char} :
    c ∈ compactItems (v :: rest) ↔
      c ∈ compactChars v ∨ (rest ≠ [] ∧ c = ',') ∨ c ∈ compactItems rest := by
  cases rest with
  | nil => simp [compactItems]
  | cons w rest => simp [compactItems]

theorem mem_compactMembers_cons {k : String} {v : Json} {rest : List (String × Json)} {c : Char} :
    c ∈ compactMembers ((k, v) :: rest) ↔
      c ∈ quotedChars k ∨ c = ':' ∨ c ∈ compactChars v ∨ (rest ≠ [] ∧ c = ',') ∨
        c ∈ compactMembers rest := by
  cases rest with
  | nil => simp [compactMembers]
  | cons m rest => simp [compactMembers]

mutual

/-- What is written for a value are plain characters and those of its texts. -/
theorem mem_compactChars : ∀ (v : Json) {c : Char}, c ∈ compactChars v → Shows v.texts c
  | .null, c, h | .bool true, c, h | .bool false, c, h => .inl (isPlain_of_all rfl c h)
  | .num n, c, h => .inl (isPlain_of_isNumeral (n.isNumeral_chars c h))
  | .str _, _, h => mem_quotedChars h
  | .arr items, c, h => by
    rw [compactChars, List.mem_cons, List.mem_append, List.mem_singleton] at h
    rcases h with rfl | h | rfl
    · exact .inl (by decide)
    · exact mem_compactItems items h
    · exact .inl (by decide)
  | .obj members, c, h => by
    rw [compactChars, List.mem_cons, List.mem_append, List.mem_singleton] at h
    rcases h with rfl | h | rfl
    · exact .inl (by decide)
    · exact mem_compactMembers members h
    · exact .inl (by decide)

theorem mem_compactItems : ∀ (items : List Json) {c : Char}, c ∈ compactItems items →
    Shows (textsOfItems items) c
  | [], c, h => by cases h
  | v :: rest, c, h => by
    obtain h | ⟨-, rfl⟩ | h := mem_compactItems_cons.mp h
    · exact (mem_compactChars v h).mono (List.subset_append_left _ _)
    · exact .inl (by decide)
    · exact (mem_compactItems rest h).mono (List.subset_append_right _ _)

theorem mem_compactMembers : ∀ (members : List (String × Json)) {c : Char},
    c ∈ compactMembers members → Shows (textsOfMembers members) c
  | [], c, h => by cases h
  | (k, v) :: rest, c, h => by
    obtain h | rfl | h | ⟨-, rfl⟩ | h := mem_compactMembers_cons.mp h
    · exact (mem_quotedChars h).mono (List.cons_subset.mpr
        ⟨List.mem_cons_self, List.nil_subset _⟩)
    · exact .inl (by decide)
    · exact (mem_compactChars v h).mono (List.subset_cons_of_subset k
        (List.subset_append_left _ _))
    · exact .inl (by decide)
    · exact (mem_compactMembers rest h).mono (List.subset_cons_of_subset k
        (List.subset_append_right _ _))

end

mutual

/-- Beyond ASCII, what occurs in the texts of a value is written. -/
theorem mem_compactChars_of_texts : ∀ (v : Json) {c : Char}, 0x80 ≤ c.toNat →
    OccursIn c v.texts → c ∈ compactChars v
  | .null, _, _, h | .bool _, _, _, h | .num _, _, _, h => by
    obtain ⟨s, hs, -⟩ := h
    cases hs
  | .str s, c, hc, h => by
    obtain ⟨t, ht, hmem⟩ := h
    rw [List.mem_singleton.mp ht] at hmem
    exact mem_quotedChars_of_mem hmem hc
  | .arr items, c, hc, h =>
    List.mem_cons_of_mem _ (List.mem_append_left _ (mem_compactItems_of_texts items hc h))
  | .obj members, c, hc, h =>
    List.mem_cons_of_mem _ (List.mem_append_left _ (mem_compactMembers_of_texts members hc h))

theorem mem_compactItems_of_texts : ∀ (items : List Json) {c : Char}, 0x80 ≤ c.toNat →
    OccursIn c (textsOfItems items) → c ∈ compactItems items
  | [], _, _, h => by
    obtain ⟨s, hs, -⟩ := h
    cases hs
  | v :: rest, c, hc, h => by
    obtain h | h := occursIn_append.mp h
    · exact mem_compactItems_cons.mpr (.inl (mem_compactChars_of_texts v hc h))
    · exact mem_compactItems_cons.mpr (.inr (.inr (mem_compactItems_of_texts rest hc h)))

theorem mem_compactMembers_of_texts : ∀ (members : List (String × Json)) {c : Char},
    0x80 ≤ c.toNat → OccursIn c (textsOfMembers members) → c ∈ compactMembers members
  | [], _, _, h => by
    obtain ⟨s, hs, -⟩ := h
    cases hs
  | (k, v) :: rest, c, hc, h => by
    rw [mem_compactMembers_cons]
    obtain h | h := occursIn_cons.mp h
    · exact .inl (mem_quotedChars_of_mem h hc)
    · obtain h | h := occursIn_append.mp h
      · exact .inr (.inr (.inl (mem_compactChars_of_texts v hc h)))
      · exact .inr (.inr (.inr (.inr (mem_compactMembers_of_texts rest hc h))))

end

/-- **No control characters.**  A compact text has none, whatever is in the texts of the value. -/
theorem le_toNat_of_mem_compactChars {v : Json} {c : Char} (h : c ∈ compactChars v) :
    0x20 ≤ c.toNat := by
  obtain hplain | ⟨hlow, -⟩ := mem_compactChars v h
  · exact hplain.1
  · exact hlow

/-- **Beyond ASCII** a compact text has the characters of the texts in the value. -/
theorem mem_compactChars_iff {v : Json} {c : Char} (hc : 0x80 ≤ c.toNat) :
    c ∈ compactChars v ↔ OccursIn c v.texts := by
  refine ⟨fun h => ?_, mem_compactChars_of_texts v hc⟩
  obtain hplain | ⟨-, hoccurs⟩ := mem_compactChars v h
  · exact absurd hplain.2 (Nat.not_lt.mpr hc)
  · exact hoccurs

end Json
end LintSetup
