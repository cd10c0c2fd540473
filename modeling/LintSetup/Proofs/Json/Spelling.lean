import LintSetup.Json.Parse
import LintSetup.Json.Text
import Mathlib.Data.List.Basic

/-!
# How numbers and texts are spelled

In the text of a value, a number and a quoted text stand without a mark of where they end.  Both can
still be told from what comes after them.

* A quoted text is read back by the reader of JSON, whatever comes after its closing quote
  (`Json.readQuotedChars_flatMap`).  So it can be told in one way only
  (`Json.quotedChars_append_inj`).
* A number is written with the characters that `isNumeral` holds of, and what comes after it, a
  comma, a line feed or nothing (`Json.Ends`), starts with none of them (`Json.chars_append_inj`).
-/

namespace LintSetup

/-! ## Numbers -/

/-- The characters that occur in numbers. -/
def isNumeral (c : Char) : Bool := c.isDigit || c == '-' || c == '+' || c == '.' || c == 'e'

theorem isNumeral_digitChars (n : Nat) : ∀ c ∈ digitChars n, isNumeral c = true := by
  intro c hc
  have hdigit : c.isDigit = true := Nat.isDigit_of_mem_toDigits (by decide) (by decide) hc
  simp [isNumeral, hdigit]

theorem isNumeral_replicate (n : Nat) : ∀ c ∈ List.replicate n '0', isNumeral c = true := by
  intro c hc
  rw [List.eq_of_mem_replicate hc]
  rfl

theorem isNumeral_intChars (n : Int) : ∀ c ∈ intChars n, isNumeral c = true := by
  rw [intChars]
  split
  · exact List.forall_mem_cons.mpr ⟨rfl, isNumeral_digitChars _⟩
  · exact isNumeral_digitChars _

theorem intChars_ne_nil (n : Int) : intChars n ≠ [] := by
  rw [intChars]
  split
  · exact List.cons_ne_nil _ _
  · exact Nat.toDigits_ne_nil

/-- A decimal is written with numerals, in each of its forms. -/
theorem isNumeral_decimalChars (layout : NumberLayout) (x : Decimal) :
    ∀ c ∈ x.chars layout, isNumeral c = true := by
  have hdigits := isNumeral_digitChars x.digits
  simp only [Decimal.chars]
  split
  · exact List.all_eq_true.mp rfl
  split
  · rw [List.forall_mem_append, List.forall_mem_append]
    exact ⟨⟨hdigits, isNumeral_replicate _⟩, List.all_eq_true.mp rfl⟩
  split
  · rw [List.forall_mem_append, List.forall_mem_cons]
    exact ⟨fun c hc => hdigits c (List.mem_of_mem_take hc), rfl,
      fun c hc => hdigits c (List.mem_of_mem_drop hc)⟩
  split
  · rw [List.forall_mem_append, List.forall_mem_cons, List.forall_mem_cons]
    exact ⟨⟨rfl, rfl, isNumeral_replicate _⟩, hdigits⟩
  · rw [List.forall_mem_append, List.forall_mem_append, List.forall_mem_cons]
    refine ⟨⟨?_, rfl, ?_⟩, isNumeral_intChars _⟩
    · split
      · exact List.forall_mem_nil _
      · next d heq => rwa [heq] at hdigits
      · next d rest _ heq =>
        rw [heq, List.forall_mem_cons] at hdigits
        rw [List.forall_mem_cons, List.forall_mem_cons]
        exact ⟨hdigits.1, rfl, hdigits.2⟩
    · split <;> exact List.all_eq_true.mp rfl

theorem decimalChars_ne_nil (layout : NumberLayout) (x : Decimal) : x.chars layout ≠ [] := by
  simp only [Decimal.chars]
  split_ifs <;> simp

/-- A number is written with numerals. -/
theorem Number.isNumeral_chars (n : Number) : ∀ c ∈ n.chars, isNumeral c = true := by
  cases n with
  | whole n => exact isNumeral_intChars n
  | double negative name =>
    rw [chars, charsIn, List.forall_mem_append]
    refine ⟨?_, isNumeral_decimalChars _ _⟩
    cases negative <;> exact List.all_eq_true.mp rfl

theorem Number.chars_ne_nil (n : Number) : n.chars ≠ [] := by
  cases n with
  | whole n => exact intChars_ne_nil n
  | double negative name =>
    rw [chars, charsIn]
    exact List.append_ne_nil_of_right_ne_nil _ (decimalChars_ne_nil _ _)

namespace Json

/-! ## Quoted texts -/

theorem hexValue?_hexDigit : ∀ n < 16, Text.hexValue? (hexDigit n) = some n := by
  decide

/-- The long escape of a control character is read as this character. -/
theorem readEscape_hexDigit {n : Nat} (h : n < 0x20) (rest : List Char) :
    readEscape ('0' :: '0' :: hexDigit (n / 16) :: hexDigit (n % 16) :: rest) =
      some (Char.ofNat n, rest) := by
  have hnought : Text.hexValue? '0' = some 0 := by decide
  have hhigh := hexValue?_hexDigit (n / 16) (by omega)
  have hlow := hexValue?_hexDigit (n % 16) (by omega)
  have hread : readHex ('0' :: '0' :: hexDigit (n / 16) :: hexDigit (n % 16) :: rest) =
      some (n, rest) := by
    have hn : n / 16 * 16 + n % 16 = n := by omega
    simp [readHex, hnought, hhigh, hlow, hn]
  have hlead : ¬ 0xD800 ≤ n := by omega
  have htrail : ¬ 0xDC00 ≤ n := by omega
  simp [readEscape, hread, hlead, htrail]

/-- A short escape is read as what it stands for. -/
theorem readQuotedChars_short {e c : Char} (h : shortEscape? e = some c) (he : e ≠ 'u')
    (fuel : Nat) (rest : List Char) :
    readQuotedChars (fuel + 1) ('\\' :: e :: rest) =
      (readQuotedChars fuel rest).map fun p => (c :: p.1, p.2) := by
  rw [readQuotedChars, if_neg (by decide), if_pos rfl]
  simp only [if_neg he, h]
  cases readQuotedChars fuel rest <;> rfl

/-- One character of a quoted text is read back. -/
theorem readQuotedChars_escapedChar (c : Char) (fuel : Nat) (rest : List Char) :
    readQuotedChars (fuel + 1) (escapedChar c ++ rest) =
      (readQuotedChars fuel rest).map fun p => (c :: p.1, p.2) := by
  unfold escapedChar
  split_ifs with hquote hbackslash hb ht hn hf hr hcontrol
  · rw [hquote]
    exact readQuotedChars_short rfl (by decide) fuel rest
  · rw [hbackslash]
    exact readQuotedChars_short rfl (by decide) fuel rest
  · rw [hb]
    exact readQuotedChars_short rfl (by decide) fuel rest
  · rw [ht]
    exact readQuotedChars_short rfl (by decide) fuel rest
  · rw [hn]
    exact readQuotedChars_short rfl (by decide) fuel rest
  · rw [hf]
    exact readQuotedChars_short rfl (by decide) fuel rest
  · rw [hr]
    exact readQuotedChars_short rfl (by decide) fuel rest
  · change readQuotedChars (fuel + 1) ('\\' :: 'u' :: '0' :: '0' :: hexDigit (c.toNat / 16) ::
      hexDigit (c.toNat % 16) :: rest) = _
    rw [readQuotedChars, if_neg (by decide), if_pos rfl]
    simp only [if_true, readEscape_hexDigit hcontrol, Char.ofNat_toNat, Option.bind_eq_bind,
      Option.bind_some]
    cases readQuotedChars fuel rest <;> rfl
  · rw [List.singleton_append, readQuotedChars.eq_def]
    simp only [if_neg hquote, if_neg hbackslash, if_neg hcontrol]
    cases readQuotedChars fuel rest <;> rfl

/-- A quoted text is read back, whatever comes after it. -/
theorem readQuotedChars_flatMap (cs : List Char) {fuel : Nat} (h : cs.length < fuel)
    (rest : List Char) :
    readQuotedChars fuel (cs.flatMap escapedChar ++ '\x22' :: rest) = some (cs, rest) := by
  induction cs generalizing fuel with
  | nil =>
    obtain ⟨fuel, rfl⟩ := Nat.exists_eq_succ_of_ne_zero (Nat.ne_of_gt h)
    rfl
  | cons c cs ih =>
    obtain ⟨fuel, rfl⟩ := Nat.exists_eq_succ_of_ne_zero (Nat.ne_of_gt (Nat.zero_lt_of_lt h))
    rw [List.flatMap_cons, List.append_assoc, readQuotedChars_escapedChar,
      ih (Nat.lt_of_succ_lt_succ h), Option.map_some]

/-- A quoted text with something after it can be told in one way. -/
theorem quotedChars_append_inj {s t : String} {r r' : List Char}
    (h : quotedChars s ++ r = quotedChars t ++ r') : s = t ∧ r = r' := by
  rw [quotedChars, quotedChars, List.cons_append, List.cons_append, List.append_assoc,
    List.append_assoc, List.cons.injEq] at h
  have hs := readQuotedChars_flatMap s.toList
    (Nat.lt_succ_of_le (Nat.le_add_right s.toList.length t.toList.length)) r
  have ht := readQuotedChars_flatMap t.toList
    (Nat.lt_succ_of_le (Nat.le_add_left t.toList.length s.toList.length)) r'
  rw [← List.singleton_append, h.2, List.singleton_append, ht] at hs
  obtain ⟨hlist, hrest⟩ := Prod.mk.inj (Option.some.inj hs)
  exact ⟨(String.toList_inj.mp hlist).symm, hrest.symm⟩


/-! ## Texts that end -/

/-- What can come after a value in an indented text: nothing, a comma or a line feed. -/
def Ends (r : List Char) : Prop := ∀ c ∈ r.head?, c = ',' ∨ c = '\n'

theorem ends_nil : Ends [] := by
  rintro c ⟨⟩

theorem ends_comma (r : List Char) : Ends (',' :: r) := by
  rintro c ⟨⟩
  exact .inl rfl

theorem ends_lineFeed (r : List Char) : Ends ('\n' :: r) := by
  rintro c ⟨⟩
  exact .inr rfl

/-- Up to such an end, numerals are all that there is. -/
theorem takeWhile_isNumeral {cs r : List Char} (hcs : ∀ c ∈ cs, isNumeral c = true) (hr : Ends r) :
    (cs ++ r).takeWhile isNumeral = cs := by
  rw [List.takeWhile_append_of_pos hcs]
  cases r with
  | nil => exact List.append_nil cs
  | cons c r =>
    have hc : isNumeral c = false := by
      rcases hr c rfl with rfl | rfl <;> decide
    rw [List.takeWhile_cons, hc, if_neg Bool.false_ne_true, List.append_nil]

theorem chars_append_inj {m n : Number} {r r' : List Char} (hr : Ends r) (hr' : Ends r')
    (h : m.chars ++ r = n.chars ++ r') : m.chars = n.chars ∧ r = r' := by
  have hchars : m.chars = n.chars := by
    rw [← takeWhile_isNumeral m.isNumeral_chars hr, h, takeWhile_isNumeral n.isNumeral_chars hr']
  rw [hchars] at h
  exact ⟨hchars, List.append_cancel_left h⟩

end Json
end LintSetup
