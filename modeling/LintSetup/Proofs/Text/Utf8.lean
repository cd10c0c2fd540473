import LintSetup.Text.Utf8
import Mathlib.Data.List.Basic

/-!
# Texts by their bytes

The bytes of a text are those of its characters, one character after another, and different texts
have different bytes.  A byte below the range of longer sequences is always a character of its own,
so a text can be cut at a slash by its characters or by its bytes: the pieces are the same
(`encode_eq_append_slash_iff`).
-/

namespace LintSetup.Text

theorem toList_loop (bs : ByteArray) (i : Nat) (read : Bytes) :
    ByteArray.toList.loop bs i read = read.reverse ++ bs.data.toList.drop i := by
  fun_induction ByteArray.toList.loop bs i read with
  | case1 i read hlt ih =>
    have hlength : i < bs.data.toList.length := hlt
    have hget : bs.get! i = bs.data.toList[i] := getElem!_pos bs.data i hlt
    rw [ih, List.drop_eq_getElem_cons hlength, hget, List.reverse_cons, List.append_assoc,
      List.singleton_append]
  | case2 i read hlt =>
    rw [List.drop_eq_nil_of_le (Nat.le_of_not_lt hlt), List.append_nil]

theorem encode_eq (s : String) : encode s = s.toByteArray.data.toList := by
  rw [encode, ByteArray.toList, toList_loop]
  rfl

/-- Different texts have different bytes. -/
theorem encode_inj {s t : String} : encode s = encode t ↔ s = t := by
  refine ⟨fun h => ?_, congrArg encode⟩
  rw [encode_eq, encode_eq] at h
  exact String.toByteArray_inj.mp (ByteArray.ext (Array.toList_inj.mp h))

theorem encode_append (s t : String) : encode (s ++ t) = encode s ++ encode t := by
  rw [encode_eq, encode_eq, encode_eq, String.toByteArray_append]
  simp

/-- The bytes of a text are those of its characters. -/
theorem encode_ofList (cs : List Char) :
    encode (String.ofList cs) = cs.flatMap String.utf8EncodeChar := by
  rw [encode_eq, String.toByteArray_ofList, List.utf8Encode]
  simp

theorem utf8EncodeChar_slash : String.utf8EncodeChar '/' = [0x2F] := by decide

/-- No other character has the byte of a slash. -/
theorem not_mem_utf8EncodeChar {c : Char} (hc : c ≠ '/') :
    (0x2F : UInt8) ∉ String.utf8EncodeChar c := by
  have hne : ∀ n : ℕ, n % 256 ≠ 47 → (0x2F : UInt8) ≠ UInt8.ofNat n := by
    intro n hn heq
    refine hn ?_
    rw [← UInt8.toNat_ofNat', ← heq]
    rfl
  unfold String.utf8EncodeChar
  simp only
  split
  · next hv =>
    refine List.not_mem_cons_of_ne_of_not_mem (hne _ fun h => hc ?_) List.not_mem_nil
    have hval : c.val.toNat = 47 := by omega
    exact Char.ext (UInt32.toNat_inj.mp hval)
  -- the bytes of a longer sequence are all beyond the range of single ones
  split
  · simp only [List.mem_cons, List.not_mem_nil, or_false, not_or]
    exact ⟨hne _ (by omega), hne _ (by omega)⟩
  split
  · simp only [List.mem_cons, List.not_mem_nil, or_false, not_or]
    exact ⟨hne _ (by omega), hne _ (by omega), hne _ (by omega)⟩
  · simp only [List.mem_cons, List.not_mem_nil, or_false, not_or]
    exact ⟨hne _ (by omega), hne _ (by omega), hne _ (by omega), hne _ (by omega)⟩

/-- Characters and bytes are cut at a slash in the same places. -/
theorem flatMap_eq_append_slash {cs : List Char} {q r : Bytes}
    (h : cs.flatMap String.utf8EncodeChar = q ++ 0x2F :: r) :
    ∃ as bs, cs = as ++ '/' :: bs ∧ q = as.flatMap String.utf8EncodeChar ∧
      r = bs.flatMap String.utf8EncodeChar := by
  induction cs generalizing q with
  | nil => simp at h
  | cons c cs ih =>
    rw [List.flatMap_cons] at h
    have hlater : ∀ q', q = String.utf8EncodeChar c ++ q' →
        cs.flatMap String.utf8EncodeChar = q' ++ 0x2F :: r →
        ∃ as bs, c :: cs = as ++ '/' :: bs ∧ q = as.flatMap String.utf8EncodeChar ∧
          r = bs.flatMap String.utf8EncodeChar := by
      rintro q' rfl hq'
      obtain ⟨as, bs, rfl, rfl, rfl⟩ := ih hq'
      exact ⟨c :: as, bs, rfl, rfl, rfl⟩
    by_cases hc : c = '/'
    · subst hc
      rw [utf8EncodeChar_slash, List.singleton_append] at h
      match q with
      | [] => exact ⟨[], cs, rfl, rfl, (List.cons.inj h).2.symm⟩
      | b :: q' =>
        obtain ⟨rfl, hq'⟩ := List.cons.inj h
        exact hlater q' rfl hq'
    · obtain ⟨q', hq, hq'⟩ | ⟨s, hs, hs'⟩ := List.append_eq_append_iff.mp h
      · exact hlater q' hq hq'
      · match s with
        | [] => exact hlater [] (by rw [hs, List.append_nil, List.append_nil]) hs'.symm
        | b :: s =>
          refine absurd ?_ (not_mem_utf8EncodeChar hc)
          rw [hs, (List.cons.inj hs').1]
          simp

/-- **Cutting a text at a slash of its bytes** is cutting it at a slash. -/
theorem encode_eq_append_slash_iff {t : String} {q r : Bytes} :
    encode t = q ++ 0x2F :: r ↔ ∃ a b, t = a ++ "/" ++ b ∧ q = encode a ∧ r = encode b := by
  constructor
  · intro h
    rw [← String.ofList_toList (s := t), encode_ofList] at h
    obtain ⟨as, bs, hcs, rfl, rfl⟩ := flatMap_eq_append_slash h
    refine ⟨String.ofList as, String.ofList bs, ?_, ?_, ?_⟩
    · rw [← String.toList_inj, hcs]
      simp
    · rw [encode_ofList]
    · rw [encode_ofList]
  · rintro ⟨a, b, rfl, rfl, rfl⟩
    have hslash : encode "/" = [0x2F] := encode_ofList ['/']
    rw [encode_append, encode_append, hslash, List.append_assoc, List.singleton_append]

end LintSetup.Text
