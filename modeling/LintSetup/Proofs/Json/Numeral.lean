import LintSetup.Json.Parse
import LintSetup.Json.Text
import Mathlib.Algebra.Field.Rat
import Mathlib.Algebra.GroupWithZero.Basic
import Mathlib.Tactic.NormNum
import Mathlib.Tactic.Ring

/-!
# The exact number that a numeral stands for

A program that reads a number keeps it in some form, and rounds it where the form does not have it;
other programs round differently.  What is said by the numeral itself is an exact number: the digits
before and after the point, taken together, times a power of ten.  Here numerals are read without
any rounding, and every number reads back from the way it is written.

* `Decimal.value` --- the number that a decimal stands for.
* `Numeral.readDecimal` --- a numeral without a minus sign: a whole part, perhaps digits after a
  point, perhaps a power of ten.
* `Numeral.exists_readDecimal_chars` --- in each of its layouts a decimal reads back as a decimal
  with the same value.  Three of the layouts have a point and no power
  (`readDecimal_point`), and the scientific one has a power and perhaps a point
  (`readDecimal_scientific`).
-/

namespace LintSetup

open Text (isDigit digitValue)

/-- The number that a decimal stands for. -/
def Decimal.value (x : Decimal) : ℚ := x.digits * 10 ^ x.exponent

/-- Digits that end in noughts have the value of those before with a greater exponent. -/
theorem Decimal.value_mul_pow (n k : Nat) (e : Int) :
    value ⟨n * 10 ^ k, e⟩ = value ⟨n, e + k⟩ := by
  rw [value, value, zpow_add₀ (by norm_num), zpow_natCast]
  push_cast
  ring

namespace Numeral

open Number (valueOf)

/-! ## Reading -/

/-- The digits at the start of a text, of which there has to be one, and the text after them. -/
def readDigits (cs : List Char) : Option (List Char × List Char) :=
  if (cs.takeWhile isDigit).isEmpty then none
  else some (cs.takeWhile isDigit, cs.dropWhile isDigit)

/-- The whole part of a numeral: a nought, or digits of which the first is none. -/
def readWhole : List Char → Option (List Char × List Char)
  | '0' :: cs => some (['0'], cs)
  | cs => readDigits cs

/-- The digits after the point, if there is a point. -/
def readFraction : List Char → Option (List Char × List Char)
  | '.' :: cs => readDigits cs
  | cs => some ([], cs)

/-- A whole number with or without a sign. -/
def readSigned : List Char → Option (Int × List Char)
  | '-' :: cs => (readDigits cs).map fun p => (-(valueOf p.1 : Int), p.2)
  | '+' :: cs => (readDigits cs).map fun p => ((valueOf p.1 : Int), p.2)
  | cs => (readDigits cs).map fun p => ((valueOf p.1 : Int), p.2)

/-- The power of ten, if there is one. -/
def readPower : List Char → Option (Int × List Char)
  | [] => some (0, [])
  | c :: cs => if c = 'e' || c = 'E' then readSigned cs else some (0, c :: cs)

/-- A numeral without a minus sign. -/
def readDecimal (cs : List Char) : Option (Decimal × List Char) := do
  let (whole, cs) ← readWhole cs
  let (fraction, cs) ← readFraction cs
  let (power, cs) ← readPower cs
  return (⟨valueOf (whole ++ fraction), power - fraction.length⟩, cs)

/-! ## Digits -/

theorem isDigit_of_core {c : Char} (h : c.isDigit = true) : isDigit c = true := by
  simp only [Char.isDigit, ge_iff_le, Bool.and_eq_true, decide_eq_true_eq] at h
  simp only [isDigit, Bool.and_eq_true, decide_eq_true_eq]
  exact h

theorem isDigit_digitChars (n : Nat) : ∀ c ∈ digitChars n, isDigit c = true := fun _ hc =>
  isDigit_of_core (Nat.isDigit_of_mem_toDigits (by decide) (by decide) hc)

theorem isDigit_replicate (k : Nat) : ∀ c ∈ List.replicate k '0', isDigit c = true := by
  intro c hc
  rw [List.eq_of_mem_replicate hc]
  rfl

theorem valueOf_eq_ofDigitChars (ds : List Char) : valueOf ds = Nat.ofDigitChars 10 ds 0 := by
  simp only [valueOf, Nat.ofDigitChars, digitValue, Nat.mul_comm]
  rfl

theorem valueOf_digitChars (n : Nat) : valueOf (digitChars n) = n := by
  rw [valueOf_eq_ofDigitChars, digitChars, Nat.ofDigitChars_toDigits (by decide) (by decide)]

/-- Noughts in front do not count. -/
theorem valueOf_replicate_append (k : Nat) (ds : List Char) :
    valueOf (List.replicate k '0' ++ ds) = valueOf ds := by
  rw [valueOf_eq_ofDigitChars, Nat.ofDigitChars_append, Nat.ofDigitChars_replicate_zero,
    Nat.mul_zero, ← valueOf_eq_ofDigitChars]

/-- Each nought at the end is a factor of ten. -/
theorem valueOf_append_replicate (ds : List Char) (k : Nat) :
    valueOf (ds ++ List.replicate k '0') = valueOf ds * 10 ^ k := by
  rw [valueOf_eq_ofDigitChars, Nat.ofDigitChars_append, Nat.ofDigitChars_replicate_zero,
    ← valueOf_eq_ofDigitChars, Nat.mul_comm]

/-- The digits of a number that is not nought do not start with a nought. -/
theorem exists_digitChars_eq_cons {n : Nat} (h : n ≠ 0) :
    ∃ d ds, digitChars n = d :: ds ∧ d ≠ '0' := by
  induction n using Nat.strongRecOn with
  | ind n ih =>
    by_cases hn : n < 10
    · refine ⟨_, [], Nat.toDigits_of_lt_base hn, ?_⟩
      rwa [Ne, Nat.digitChar_eq_zero]
    · obtain ⟨d, ds, hds, hd⟩ := ih (n / 10) (by omega) (by omega)
      refine ⟨d, ds ++ [Nat.digitChar (n % 10)], ?_, hd⟩
      rw [digitChars, Nat.toDigits_of_base_le (by decide) (by omega), ← digitChars, hds,
        List.cons_append]

/-! ## Parts of numerals -/

/-- Digits that can stand before the point. -/
structure IsWhole (ds : List Char) : Prop where
  digits : ∀ c ∈ ds, isDigit c = true
  start : ds = ['0'] ∨ ∃ d rest, ds = d :: rest ∧ d ≠ '0'

theorem isWhole_nought : IsWhole ['0'] :=
  ⟨List.all_eq_true.mp rfl, .inl rfl⟩

theorem isWhole_digitChars (n : Nat) : IsWhole (digitChars n) := by
  by_cases h : n = 0
  · rw [h]
    exact isWhole_nought
  · exact ⟨isDigit_digitChars n, .inr (exists_digitChars_eq_cons h)⟩

/-- A text at whose start no digit stands. -/
def Apart (r : List Char) : Prop := ∀ c ∈ r.head?, isDigit c = false

theorem apart_cons {c : Char} (h : isDigit c = false) (r : List Char) : Apart (c :: r) := by
  rintro _ ⟨⟩
  exact h

theorem readDigits_append {ds r : List Char} (hne : ds ≠ []) (hds : ∀ c ∈ ds, isDigit c = true)
    (hr : Apart r) : readDigits (ds ++ r) = some (ds, r) := by
  have hnone : r.takeWhile isDigit = [] ∧ r.dropWhile isDigit = r := by
    cases r with
    | nil => exact ⟨rfl, rfl⟩
    | cons c r =>
      rw [List.takeWhile_cons, List.dropWhile_cons, hr c rfl]
      exact ⟨rfl, rfl⟩
  rw [readDigits, List.takeWhile_append_of_pos hds, List.dropWhile_append_of_pos hds, hnone.1,
    hnone.2, List.append_nil, if_neg (by simpa using hne)]

theorem readWhole_append {ds r : List Char} (hds : IsWhole ds) (hr : Apart r) :
    readWhole (ds ++ r) = some (ds, r) := by
  obtain rfl | ⟨d, rest, rfl, hd⟩ := hds.start
  · rfl
  · rw [← readDigits_append (List.cons_ne_nil d rest) hds.digits hr, List.cons_append]
    unfold readWhole
    split
    · next heq => exact absurd (List.cons.inj heq).1 hd
    · rfl

/-- A sign is no digit, so digits are read as a number without one. -/
theorem readSigned_digits {ds r : List Char} (hne : ds ≠ []) (hds : ∀ c ∈ ds, isDigit c = true)
    (hr : Apart r) : readSigned (ds ++ r) = some ((valueOf ds : Int), r) := by
  obtain ⟨d, rest, rfl⟩ := List.exists_cons_of_ne_nil hne
  have hd : isDigit d = true := hds d List.mem_cons_self
  have hread := readDigits_append hne hds hr
  rw [List.cons_append] at hread ⊢
  unfold readSigned
  split
  · next heq => rw [(List.cons.inj heq).1] at hd; cases hd
  · next heq => rw [(List.cons.inj heq).1] at hd; cases hd
  · rw [hread, Option.map_some]

theorem readSigned_intChars (e : Int) {r : List Char} (hr : Apart r) :
    readSigned (intChars e ++ r) = some (e, r) := by
  have hdigits := isDigit_digitChars e.natAbs
  have hne : digitChars e.natAbs ≠ [] := Nat.toDigits_ne_nil
  rw [intChars]
  split
  · next hneg =>
    rw [List.cons_append, readSigned, readDigits_append hne hdigits hr, Option.map_some,
      valueOf_digitChars]
    congr 2
    omega
  · next hpos =>
    rw [readSigned_digits hne hdigits hr, valueOf_digitChars]
    congr 2
    omega

theorem readSigned_plus {e : Int} (he : 0 ≤ e) {r : List Char} (hr : Apart r) :
    readSigned ('+' :: (intChars e ++ r)) = some (e, r) := by
  have hdigits := isDigit_digitChars e.natAbs
  have hne : digitChars e.natAbs ≠ [] := Nat.toDigits_ne_nil
  rw [intChars, if_neg (by omega), readSigned, readDigits_append hne hdigits hr, Option.map_some,
    valueOf_digitChars]
  congr 2
  omega

/-! ## Numerals -/

/-- What can come after a value in a compact text: nothing, a comma or a closing bracket. -/
def Closes (r : List Char) : Prop := ∀ c ∈ r.head?, c = ',' ∨ c = ']' ∨ c = '\x7d'

theorem Closes.apart {r : List Char} (h : Closes r) : Apart r := by
  intro c hc
  obtain rfl | rfl | rfl := h c hc <;> rfl

theorem Closes.readPower {r : List Char} (h : Closes r) : readPower r = some (0, r) := by
  cases r with
  | nil => rfl
  | cons c r => obtain rfl | rfl | rfl := h c rfl <;> rfl

theorem Closes.readFraction {r : List Char} (h : Closes r) : readFraction r = some ([], r) := by
  cases r with
  | nil => rfl
  | cons c r => obtain rfl | rfl | rfl := h c rfl <;> rfl

theorem readDecimal_eq {cs cs' cs'' r whole fraction : List Char} {power : Int}
    (hwhole : readWhole cs = some (whole, cs'))
    (hfraction : readFraction cs' = some (fraction, cs''))
    (hpower : readPower cs'' = some (power, r)) :
    readDecimal cs = some (⟨valueOf (whole ++ fraction), power - fraction.length⟩, r) := by
  simp [readDecimal, hwhole, hfraction, hpower]

/-- A whole number. -/
theorem readDecimal_whole {whole r : List Char} (hwhole : IsWhole whole) (hr : Closes r) :
    readDecimal (whole ++ r) = some (⟨valueOf whole, 0⟩, r) := by
  rw [readDecimal_eq (readWhole_append hwhole hr.apart) hr.readFraction hr.readPower,
    List.append_nil]
  rfl

/-- A numeral with a point and no power of ten. -/
theorem readDecimal_point {whole fraction r : List Char} (hwhole : IsWhole whole)
    (hne : fraction ≠ []) (hfraction : ∀ c ∈ fraction, isDigit c = true) (hr : Closes r) :
    readDecimal (whole ++ '.' :: (fraction ++ r)) =
      some (⟨valueOf (whole ++ fraction), -fraction.length⟩, r) := by
  have hpoint : readFraction ('.' :: (fraction ++ r)) = some (fraction, r) :=
    readDigits_append hne hfraction hr.apart
  rw [readDecimal_eq (readWhole_append hwhole (apart_cons rfl _)) hpoint hr.readPower,
    Int.zero_sub]

/-! ## The layouts of a decimal -/

/-- The digits of a number in scientific form: one before the point, and the others after it. -/
def mantissa : List Char → List Char
  | [] => []
  | [d] => [d]
  | d :: rest => d :: '.' :: rest

section Layouts

variable {n : Nat} {e : Int} {d : Char} {ds r : List Char}

/-- Noughts after the digits, and a nought after the point. -/
theorem readDecimal_noughts (hd : d ≠ '0') (hds : digitChars n = d :: ds) (k : Nat)
    (hr : Closes r) :
    readDecimal (d :: ds ++ List.replicate k '0' ++ ['.', '0'] ++ r) =
      some (⟨n * 10 ^ (k + 1), -1⟩, r) := by
  have hdigits : ∀ c ∈ d :: ds, isDigit c = true := hds ▸ isDigit_digitChars n
  have hwhole : IsWhole (d :: ds ++ List.replicate k '0') :=
    ⟨List.forall_mem_append.mpr ⟨hdigits, isDigit_replicate k⟩, .inr ⟨d, _, rfl, hd⟩⟩
  have hvalue : valueOf (d :: ds ++ List.replicate k '0' ++ ['0']) = n * 10 ^ (k + 1) := by
    rw [List.append_assoc, ← List.replicate_succ', valueOf_append_replicate, ← hds,
      valueOf_digitChars]
  rw [List.append_assoc, ← hvalue]
  exact readDecimal_point hwhole (List.cons_ne_nil '0' []) (isDigit_replicate 1) hr

/-- The point among the digits. -/
theorem readDecimal_among (hd : d ≠ '0') (hds : digitChars n = d :: ds) {k : Nat}
    (hk : (d :: ds).length + e = (k + 1 : Nat)) (he : e < 0) (hr : Closes r) :
    readDecimal ((d :: ds).take (k + 1) ++ '.' :: (d :: ds).drop (k + 1) ++ r) =
      some (⟨n, e⟩, r) := by
  have hdigits : ∀ c ∈ d :: ds, isDigit c = true := hds ▸ isDigit_digitChars n
  have hwhole : IsWhole ((d :: ds).take (k + 1)) :=
    ⟨fun c hc => hdigits c (List.mem_of_mem_take hc), .inr ⟨d, ds.take k, rfl, hd⟩⟩
  have hlast : -(((d :: ds).drop (k + 1)).length : Int) = e := by
    rw [List.length_drop]
    omega
  have hne : (d :: ds).drop (k + 1) ≠ [] := by
    intro hnil
    rw [hnil, List.length_nil] at hlast
    omega
  have hread := readDecimal_point hwhole hne (fun c hc => hdigits c (List.mem_of_mem_drop hc)) hr
  rwa [List.take_append_drop, hlast, ← hds, valueOf_digitChars, hds, ← List.cons_append,
    ← List.append_assoc] at hread

/-- Noughts between the point and the digits. -/
theorem readDecimal_below (hds : digitChars n = d :: ds) {k : Nat}
    (hk : (d :: ds).length + e = -k) (hr : Closes r) :
    readDecimal ('0' :: '.' :: List.replicate k '0' ++ d :: ds ++ r) = some (⟨n, e⟩, r) := by
  have hdigits : ∀ c ∈ d :: ds, isDigit c = true := hds ▸ isDigit_digitChars n
  have hvalue : valueOf (['0'] ++ (List.replicate k '0' ++ d :: ds)) = n := by
    rw [← List.append_assoc, ← List.replicate_one, List.replicate_append_replicate,
      valueOf_replicate_append, ← hds, valueOf_digitChars]
  have hlast : -((List.replicate k '0' ++ d :: ds).length : Int) = e := by
    rw [List.length_append, List.length_replicate]
    omega
  have hread := readDecimal_point isWhole_nought
    (List.append_ne_nil_of_right_ne_nil _ (List.cons_ne_nil d ds))
    (List.forall_mem_append.mpr ⟨isDigit_replicate k, hdigits⟩) hr
  rwa [hvalue, hlast] at hread

/-- One digit before the point, and a power of ten. -/
theorem readDecimal_scientific (hd : d ≠ '0') (hds : digitChars n = d :: ds) {power : List Char}
    (hpower : readSigned (power ++ r) = some ((d :: ds).length + e - 1, r)) :
    readDecimal (mantissa (d :: ds) ++ 'e' :: power ++ r) = some (⟨n, e⟩, r) := by
  have hdigits : ∀ c ∈ d :: ds, isDigit c = true := hds ▸ isDigit_digitChars n
  have hvalue : valueOf ([d] ++ ds) = n := by rw [List.singleton_append, ← hds, valueOf_digitChars]
  have hwhole : IsWhole [d] :=
    ⟨List.forall_mem_singleton.mpr (hdigits d List.mem_cons_self), .inr ⟨d, [], rfl, hd⟩⟩
  have hread : readPower ('e' :: (power ++ r)) = some ((d :: ds).length + e - 1, r) := hpower
  have hlast : ((d :: ds).length : Int) + e - 1 - ds.length = e := by
    rw [List.length_cons]
    omega
  cases ds with
  | nil =>
    have hnone : readFraction ('e' :: (power ++ r)) = some ([], 'e' :: (power ++ r)) := rfl
    have hall := readDecimal_eq (readWhole_append hwhole (apart_cons rfl _)) hnone hread
    rwa [hvalue, hlast] at hall
  | cons d' ds =>
    have hpoint : readFraction ('.' :: (d' :: ds ++ 'e' :: (power ++ r))) =
        some (d' :: ds, 'e' :: (power ++ r)) :=
      readDigits_append (List.cons_ne_nil d' ds)
        (fun c hc => hdigits c (List.mem_cons_of_mem d hc)) (apart_cons rfl _)
    have hall := readDecimal_eq (readWhole_append hwhole (apart_cons rfl _)) hpoint hread
    rw [hvalue, hlast] at hall
    rw [← hall, List.append_assoc]
    rfl

end Layouts

/-- **A decimal reads back.**  However it is laid out, what it is written as reads as a decimal with
the same value. -/
theorem exists_readDecimal_chars (layout : NumberLayout) (x : Decimal) {r : List Char}
    (hr : Closes r) :
    ∃ y : Decimal, readDecimal (x.chars layout ++ r) = some (y, r) ∧ y.value = x.value := by
  obtain ⟨n, e⟩ := x
  simp only [Decimal.chars]
  split
  · next hzero =>
    refine ⟨⟨0, -1⟩, readDecimal_point isWhole_nought (List.cons_ne_nil '0' [])
      (isDigit_replicate 1) hr, ?_⟩
    simp [Decimal.value, hzero]
  next hn =>
  obtain ⟨d, ds, hds, hd⟩ := exists_digitChars_eq_cons hn
  rw [hds]
  split
  · next hwhole =>
    refine ⟨_, readDecimal_noughts hd hds e.toNat hr, ?_⟩
    rw [Decimal.value_mul_pow]
    congr 2
    omega
  split
  · next hnot hpoint =>
    obtain ⟨k, hk⟩ : ∃ k : Nat, ((d :: ds).length + e).toNat = k + 1 :=
      Nat.exists_eq_succ_of_ne_zero (by omega)
    rw [hk]
    exact ⟨_, readDecimal_among hd hds (by omega) (by omega) hr, rfl⟩
  split
  · next hpoint => exact ⟨_, readDecimal_below hds (by omega) hr, rfl⟩
  · rw [List.append_assoc _ ('e' :: _), List.cons_append]
    refine ⟨_, readDecimal_scientific hd hds ?_, rfl⟩
    split
    · next hplus =>
      have hpos := of_decide_eq_true (Bool.and_eq_true_iff.mp hplus).2
      exact readSigned_plus (by omega) hr.apart
    · exact readSigned_intChars _ hr.apart

example : readDecimal "1.5e+300,".toList = some (⟨15, 299⟩, [',']) := by decide

end Numeral
end LintSetup
