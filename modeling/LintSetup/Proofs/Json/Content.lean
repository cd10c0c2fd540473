import LintSetup.Proofs.Json.Numeral
import LintSetup.Proofs.Json.Spelling

/-!
# What the compact text of a value says

A text that is sent to another program is read by a reader of its own.  So that nothing depends on
how that reader keeps numbers, a text is read here as what it says: its *content*, which is like a
value but has exact numbers.  The compact text of a value says the value, all of it and nothing else
(`Content.read?_compact`).

A value stands in a text with something after it, so the induction is over the text of a value with
an end after it (`Content.readValue_compactChars`).  Reading takes fuel, twice as much as there are
characters.

The second half is about single characters: which of them occur in a compact text at all, and which
of those come from texts and keys in the value (`mem_compactChars`, `mem_compactChars_of_texts`).
-/

namespace LintSetup

/-- What a text of JSON says.  A number has a sign and an exact magnitude. -/
inductive Json.Content where
  | null
  | bool (b : Bool)
  | num (negative : Bool) (magnitude : ℚ)
  | str (s : String)
  | arr (items : List Content)
  | obj (members : List (String × Content))

/-- What is said by a number. -/
def Number.content : Number → Json.Content
  | .whole n => .num (n < 0) n.natAbs
  | .double negative name => .num negative name.value

namespace Json

mutual

/-- What is said by a value. -/
def content : Json → Content
  | null => .null
  | bool b => .bool b
  | num n => n.content
  | str s => .str s
  | arr items => .arr (contents items)
  | obj members => .obj (memberContents members)

/-- `content` on lists. -/
def contents : List Json → List Content
  | [] => []
  | v :: rest => content v :: contents rest

/-- `content` on members. -/
def memberContents : List (String × Json) → List (String × Content)
  | [] => []
  | (k, v) :: rest => (k, content v) :: memberContents rest

end

namespace Content

/-! ## Reading -/

/-- A number. -/
def readNumber : List Char → Option (Content × List Char)
  | '-' :: cs => (Numeral.readDecimal cs).map fun p => (num true p.1.value, p.2)
  | cs => (Numeral.readDecimal cs).map fun p => (num false p.1.value, p.2)

/-- A fixed word. -/
def readWord (word : List Char) (c : Content) (cs : List Char) : Option (Content × List Char) :=
  if word.isPrefixOf cs then some (c, cs.drop word.length) else none

mutual

/-- What the value at the start of a text says, after optional space, and the text after it. -/
def readValue : Nat → List Char → Option (Content × List Char)
  | 0, _ => none
  | fuel + 1, cs =>
    match skipSpace cs with
    | [] => none
    | c :: cs =>
      if c = 'n' then readWord ['u', 'l', 'l'] null cs
      else if c = 't' then readWord ['r', 'u', 'e'] (bool true) cs
      else if c = 'f' then readWord ['a', 'l', 's', 'e'] (bool false) cs
      else if c = '\x22' then (readQuoted fuel cs).map fun p => (str p.1, p.2)
      else if c = '[' then
        match skipSpace cs with
        | ']' :: rest => some (arr [], rest)
        | cs => (readItems fuel cs).map fun p => (arr p.1, p.2)
      else if c = '\x7b' then
        match skipSpace cs with
        | '\x7d' :: rest => some (obj [], rest)
        | cs => (readMembers fuel cs).map fun p => (obj p.1, p.2)
      else readNumber (c :: cs)

/-- The items of a list that is not empty, and its closing bracket. -/
def readItems : Nat → List Char → Option (List Content × List Char)
  | 0, _ => none
  | fuel + 1, cs => do
    let (v, cs) ← readValue fuel cs
    match skipSpace cs with
    | ',' :: cs => do
      let (items, rest) ← readItems fuel cs
      return (v :: items, rest)
    | ']' :: rest => return ([v], rest)
    | _ => none

/-- The members of an object that is not empty, and its closing brace. -/
def readMembers : Nat → List Char → Option (List (String × Content) × List Char)
  | 0, _ => none
  | fuel + 1, cs =>
    match skipSpace cs with
    | '\x22' :: cs => do
      let (key, cs) ← readQuoted fuel cs
      match skipSpace cs with
      | ':' :: cs => do
        let (v, cs) ← readValue fuel cs
        match skipSpace cs with
        | ',' :: cs => do
          let (members, rest) ← readMembers fuel cs
          return ((key, v) :: members, rest)
        | '\x7d' :: rest => return ([(key, v)], rest)
        | _ => none
      | _ => none
    | _ => none

end

/-- What a whole text says, if it is a value with nothing but space around it. -/
def read? (s : String) : Option Content :=
  match readValue (2 * s.toList.length + 2) s.toList with
  | some (c, rest) => if (skipSpace rest).isEmpty then some c else none
  | none => none

end Content

open Numeral (Closes)

/-! ## Parts of a compact text -/

theorem skipSpace_cons {c : Char} (h : isSpace c = false) (cs : List Char) :
    skipSpace (c :: cs) = c :: cs := by
  rw [skipSpace, List.dropWhile_cons, h]
  rfl

theorem closes_comma (r : List Char) : Closes (',' :: r) := by
  rintro c ⟨⟩
  exact .inl rfl

theorem closes_bracket (r : List Char) : Closes (']' :: r) := by
  rintro c ⟨⟩
  exact .inr (.inl rfl)

theorem closes_brace (r : List Char) : Closes ('\x7d' :: r) := by
  rintro c ⟨⟩
  exact .inr (.inr rfl)

theorem closes_nil : Closes [] := by
  rintro c ⟨⟩

/-- A character at which a value can start in a compact text. -/
structure Starts (c : Char) : Prop where
  notSpace : isSpace c = false
  notBracket : c ≠ ']'

theorem starts_of_isNumeral {c : Char} (h : isNumeral c = true) : Starts c := by
  constructor
  · cases hspace : isSpace c with
    | false => rfl
    | true =>
      simp only [isSpace, Bool.or_eq_true, decide_eq_true_eq, or_assoc] at hspace
      rcases hspace with rfl | rfl | rfl | rfl <;> exact absurd h (by decide)
  · rintro rfl
    exact absurd h (by decide)

/-- The text of a value starts with a character that is neither space nor a closing bracket. -/
theorem exists_compactChars_eq_cons (v : Json) :
    ∃ c cs, compactChars v = c :: cs ∧ Starts c := by
  cases v with
  | null => exact ⟨_, _, rfl, rfl, by decide⟩
  | bool b => cases b <;> exact ⟨_, _, rfl, rfl, by decide⟩
  | num n =>
    obtain ⟨c, cs, hcs⟩ := List.exists_cons_of_ne_nil n.chars_ne_nil
    refine ⟨c, cs, hcs, starts_of_isNumeral (n.isNumeral_chars c ?_)⟩
    rw [hcs]
    exact List.mem_cons_self
  | str s => exact ⟨_, _, rfl, rfl, by decide⟩
  | arr items => exact ⟨_, _, rfl, rfl, by decide⟩
  | obj members => exact ⟨_, _, rfl, rfl, by decide⟩

theorem length_le_length_flatMap_escapedChar (cs : List Char) :
    cs.length ≤ (cs.flatMap escapedChar).length := by
  induction cs with
  | nil => exact Nat.le_refl 0
  | cons c cs ih =>
    have hone : 1 ≤ (escapedChar c).length := by
      unfold escapedChar
      split_ifs <;> simp
    rw [List.flatMap_cons, List.length_append, List.length_cons]
    omega

/-- A quoted text whose opening quote has been read. -/
theorem readQuoted_quotedChars (s : String) {fuel : Nat} (h : (quotedChars s).length ≤ fuel + 1)
    (r : List Char) :
    ∃ cs, quotedChars s ++ r = '\x22' :: cs ∧ readQuoted fuel cs = some (s, r) := by
  have hlength := length_le_length_flatMap_escapedChar s.toList
  rw [quotedChars, List.length_cons, List.length_append, List.length_singleton] at h
  refine ⟨s.toList.flatMap escapedChar ++ '\x22' :: r, ?_, ?_⟩
  · rw [quotedChars, List.cons_append, List.append_assoc, List.singleton_append]
  · rw [readQuoted, readQuotedChars_flatMap s.toList (by omega) r, Option.map_some]
    exact congrArg (fun t => some (t, r)) String.ofList_toList

/-- Items start like the first of them. -/
theorem exists_compactItems_eq_cons (v : Json) (rest : List Json) :
    ∃ c cs, compactItems (v :: rest) = c :: cs ∧ Starts c := by
  obtain ⟨c, cs, hcs, hc⟩ := exists_compactChars_eq_cons v
  cases rest with
  | nil => exact ⟨c, cs, by rw [compactItems, hcs], hc⟩
  | cons w rest => exact ⟨c, _, by rw [compactItems, hcs, List.cons_append], hc⟩

theorem exists_compactMembers_eq_cons (m : String × Json) (rest : List (String × Json)) :
    ∃ cs, compactMembers (m :: rest) = '\x22' :: cs := by
  obtain ⟨k, v⟩ := m
  cases rest with
  | nil => exact ⟨_, rfl⟩
  | cons m rest => exact ⟨_, rfl⟩

/-- There is fuel for a value and one more call. -/
theorem two_le_fuel (v : Json) {fuel : Nat} (h : 2 * (compactChars v).length + 1 ≤ fuel) :
    2 ≤ fuel := by
  obtain ⟨c, cs, hcs, -⟩ := exists_compactChars_eq_cons v
  rw [hcs, List.length_cons] at h
  omega

/-! ## Values read back -/

namespace Content

/-- A numeral without a minus sign is a number that is not negative. -/
theorem readNumber_of_readDecimal {cs r : List Char} {x : Decimal}
    (h : Numeral.readDecimal cs = some (x, r)) : readNumber cs = some (num false x.value, r) := by
  unfold readNumber
  split
  · cases h
  · rw [h, Option.map_some]

theorem readNumber_minus {cs r : List Char} {x : Decimal}
    (h : Numeral.readDecimal cs = some (x, r)) :
    readNumber ('-' :: cs) = some (num true x.value, r) := by
  rw [readNumber, h, Option.map_some]

/-- A number reads back. -/
theorem readNumber_chars (n : Number) {r : List Char} (hr : Closes r) :
    readNumber (n.chars ++ r) = some (n.content, r) := by
  cases n with
  | whole n =>
    have hread := Numeral.readDecimal_whole (Numeral.isWhole_digitChars n.natAbs) hr
    have hvalue : Decimal.value ⟨n.natAbs, 0⟩ = n.natAbs := by
      rw [Decimal.value, zpow_zero, mul_one]
    rw [Numeral.valueOf_digitChars] at hread
    rw [Number.chars, Number.charsIn, Number.content, intChars, ← hvalue]
    split
    · next hneg => rw [List.cons_append, readNumber_minus hread, decide_eq_true hneg]
    · next hneg => rw [readNumber_of_readDecimal hread, decide_eq_false hneg]
  | double negative name =>
    obtain ⟨x, hread, hvalue⟩ := Numeral.exists_readDecimal_chars Number.layout name hr
    rw [Number.chars, Number.charsIn, Number.content, ← hvalue]
    cases negative with
    | true => exact readNumber_minus hread
    | false => exact readNumber_of_readDecimal hread

/-- What is read at a numeral is a number. -/
theorem readValue_of_isNumeral {c : Char} (h : isNumeral c = true) (fuel : Nat) (cs : List Char) :
    readValue (fuel + 1) (c :: cs) = readNumber (c :: cs) := by
  have hne (d : Char) (hd : isNumeral d = false) : c ≠ d := by
    rintro rfl
    rw [h] at hd
    cases hd
  rw [readValue, skipSpace_cons (starts_of_isNumeral h).notSpace]
  simp only [hne _ (by decide : isNumeral 'n' = false), hne _ (by decide : isNumeral 't' = false),
    hne _ (by decide : isNumeral 'f' = false), hne _ (by decide : isNumeral '\x22' = false),
    hne _ (by decide : isNumeral '[' = false), hne _ (by decide : isNumeral '\x7b' = false),
    if_false]

/-- What is read at an opening bracket where no closing one follows is a list with items. -/
theorem readValue_bracket {c : Char} (h : Starts c) (fuel : Nat) (cs : List Char) :
    readValue (fuel + 1) ('[' :: c :: cs) =
      (readItems fuel (c :: cs)).map fun p => (arr p.1, p.2) := by
  rw [readValue, skipSpace_cons rfl]
  simp only [skipSpace_cons h.notSpace, if_false, if_true, Char.reduceEq]
  split
  · next heq => exact absurd (List.cons.inj heq).1 h.notBracket
  · rfl

theorem readValue_brace (fuel : Nat) (cs : List Char) :
    readValue (fuel + 1) ('\x7b' :: '\x22' :: cs) =
      (readMembers fuel ('\x22' :: cs)).map fun p => (obj p.1, p.2) :=
  rfl

theorem readValue_quote (fuel : Nat) (cs : List Char) :
    readValue (fuel + 1) ('\x22' :: cs) = (readQuoted fuel cs).map fun p => (str p.1, p.2) :=
  rfl

section Steps

variable {fuel : Nat} {cs cs' r : List Char} {v : Content} {key : String}

theorem readItems_last (hv : readValue fuel cs = some (v, ']' :: r)) :
    readItems (fuel + 1) cs = some ([v], r) := by
  rw [readItems, hv]
  rfl

theorem readItems_comma {items : List Content} (hv : readValue fuel cs = some (v, ',' :: cs'))
    (hrest : readItems fuel cs' = some (items, r)) :
    readItems (fuel + 1) cs = some (v :: items, r) := by
  rw [readItems, hv]
  simp [skipSpace_cons (show isSpace ',' = false from rfl), hrest]

theorem readMembers_last (hkey : readQuoted fuel cs = some (key, ':' :: cs'))
    (hv : readValue fuel cs' = some (v, '\x7d' :: r)) :
    readMembers (fuel + 1) ('\x22' :: cs) = some ([(key, v)], r) := by
  rw [readMembers, skipSpace_cons rfl]
  simp [skipSpace_cons (show isSpace ':' = false from rfl),
    skipSpace_cons (show isSpace '\x7d' = false from rfl), hkey, hv]

theorem readMembers_comma {cs'' : List Char} {members : List (String × Content)}
    (hkey : readQuoted fuel cs = some (key, ':' :: cs'))
    (hv : readValue fuel cs' = some (v, ',' :: cs''))
    (hrest : readMembers fuel cs'' = some (members, r)) :
    readMembers (fuel + 1) ('\x22' :: cs) = some ((key, v) :: members, r) := by
  rw [readMembers, skipSpace_cons rfl]
  simp [skipSpace_cons (show isSpace ':' = false from rfl),
    skipSpace_cons (show isSpace ',' = false from rfl), hkey, hv, hrest]

end Steps

mutual

/-- The text of a value, with an end after it, says the value. -/
theorem readValue_compactChars : ∀ (v : Json) {fuel : Nat} (r : List Char),
    2 * (compactChars v).length ≤ fuel + 1 → Closes r →
      readValue (fuel + 1) (compactChars v ++ r) = some (v.content, r)
  | .null, fuel, r, _, _ => rfl
  | .bool true, fuel, r, _, _ => rfl
  | .bool false, fuel, r, _, _ => rfl
  | .num n, fuel, r, _, hr => by
    obtain ⟨c, cs, hcs⟩ := List.exists_cons_of_ne_nil n.chars_ne_nil
    have hc : isNumeral c = true := n.isNumeral_chars c (hcs ▸ List.mem_cons_self)
    have hread := readNumber_chars n hr
    rw [compactChars, content, ← hread, hcs, List.cons_append, readValue_of_isNumeral hc]
  | .str s, fuel, r, hfuel, _ => by
    rw [compactChars] at hfuel ⊢
    obtain ⟨cs, hcs, hread⟩ := readQuoted_quotedChars s (show _ ≤ fuel + 1 by omega) r
    rw [hcs, readValue_quote, hread, Option.map_some, content]
  | .arr [], fuel, r, _, _ => rfl
  | .arr (v :: rest), fuel, r, hfuel, _ => by
    rw [compactChars, List.length_cons, List.length_append, List.length_singleton] at hfuel
    have hread := readItems_compactItems v rest r (show _ ≤ fuel by omega)
    obtain ⟨c, cs, hcs, hstart⟩ := exists_compactItems_eq_cons v rest
    rw [compactChars, List.cons_append, List.append_assoc, List.singleton_append, hcs,
      List.cons_append, readValue_bracket hstart, ← List.cons_append, ← hcs, hread,
      Option.map_some, content]
  | .obj [], fuel, r, _, _ => rfl
  | .obj (m :: rest), fuel, r, hfuel, hr => by
    rw [compactChars, List.length_cons, List.length_append, List.length_singleton] at hfuel
    have hread := readMembers_compactMembers m rest r (show _ ≤ fuel by omega)
    obtain ⟨cs, hcs⟩ := exists_compactMembers_eq_cons m rest
    rw [compactChars, List.cons_append, List.append_assoc, List.singleton_append, hcs,
      List.cons_append, readValue_brace, ← List.cons_append, ← hcs, hread, Option.map_some, content]

/-- So do the texts of items with commas between them. -/
theorem readItems_compactItems : ∀ (v : Json) (rest : List Json) {fuel : Nat} (r : List Char),
    2 * (compactItems (v :: rest)).length + 1 ≤ fuel →
      readItems fuel (compactItems (v :: rest) ++ ']' :: r) = some (contents (v :: rest), r)
  | v, [], fuel, r, hfuel => by
    rw [compactItems] at hfuel ⊢
    obtain ⟨fuel, rfl⟩ := Nat.exists_eq_add_of_le' (two_le_fuel v hfuel)
    exact readItems_last (readValue_compactChars v (']' :: r) (by omega) (closes_bracket r))
  | v, w :: rest, fuel, r, hfuel => by
    rw [compactItems, List.length_append, List.length_cons] at hfuel
    obtain ⟨fuel, rfl⟩ := Nat.exists_eq_add_of_le' 
      (two_le_fuel v (show _ ≤ fuel by omega))
    rw [compactItems, List.append_assoc, List.cons_append]
    exact readItems_comma (readValue_compactChars v _ (by omega) (closes_comma _))
      (readItems_compactItems w rest r (by omega))

/-- And so do the texts of members. -/
theorem readMembers_compactMembers : ∀ (m : String × Json) (rest : List (String × Json))
    {fuel : Nat} (r : List Char), 2 * (compactMembers (m :: rest)).length + 1 ≤ fuel →
      readMembers fuel (compactMembers (m :: rest) ++ '\x7d' :: r) =
        some (memberContents (m :: rest), r)
  | (k, v), [], fuel, r, hfuel => by
    rw [compactMembers, List.length_append, List.length_cons] at hfuel
    obtain ⟨fuel, rfl⟩ := Nat.exists_eq_add_of_le' 
      (two_le_fuel v (show _ ≤ fuel by omega))
    rw [compactMembers, List.append_assoc, List.cons_append]
    obtain ⟨cs, hcs, hread⟩ := readQuoted_quotedChars k (show _ ≤ fuel + 1 + 1 by omega)
      (':' :: (compactChars v ++ '\x7d' :: r))
    rw [hcs]
    exact readMembers_last hread (readValue_compactChars v _ (by omega) (closes_brace r))
  | (k, v), m :: rest, fuel, r, hfuel => by
    rw [compactMembers, List.length_append, List.length_cons, List.length_append,
      List.length_cons] at hfuel
    obtain ⟨fuel, rfl⟩ := Nat.exists_eq_add_of_le' 
      (two_le_fuel v (show _ ≤ fuel by omega))
    rw [compactMembers, List.append_assoc, List.cons_append, List.append_assoc, List.cons_append]
    obtain ⟨cs, hcs, hread⟩ := readQuoted_quotedChars k (show _ ≤ fuel + 1 + 1 by omega)
      (':' :: (compactChars v ++ ',' :: (compactMembers (m :: rest) ++ '\x7d' :: r)))
    rw [hcs]
    exact readMembers_comma hread (readValue_compactChars v _ (by omega) (closes_comma _))
      (readMembers_compactMembers m rest r (by omega))

end

/-- **The compact text of a value says the value.** -/
theorem read?_compact (v : Json) : read? v.compact = some v.content := by
  have hread : readValue (2 * (compactChars v).length + 2) (compactChars v) =
      some (v.content, []) := by
    have h := readValue_compactChars v [] (show _ ≤ 2 * (compactChars v).length + 1 + 1 by omega)
      closes_nil
    rwa [List.append_nil] at h
  rw [read?, compact, String.toList_ofList, hread]
  rfl

end Content

end Json
end LintSetup
