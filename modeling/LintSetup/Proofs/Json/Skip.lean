import LintSetup.Json.Record
import LintSetup.Json.Skip
import LintSetup.Proofs.Members

/-!
# Skipping goes as far as reading

A reader that skips does less than a reader that makes a value, and accepts more.  Where both
accept a text they end at the same place, and that is all that is needed here: a record read from a
text is then the value of the text without the members that were skipped
(`parseRecord?_of_parseWritten?`).

Reading and skipping call themselves at the same places, so the induction is over the fuel, with one
step for values, one for items and one for members.  The leaves are numbers
(`Number.skip_of_read`) and texts between quotes (`skipQuoted_of_readQuotedChars`); there the reader
keeps count of digits, and takes two escapes at once, where skipping does neither.
-/

namespace LintSetup

open Text (isDigit hexValue?)

/-! ## Numbers -/

namespace Number

theorem skipSomeDigits_cons {c : Char} (h : isDigit c = true) (cs : List Char) :
    skipSomeDigits (c :: cs) = some (cs.dropWhile isDigit) := by
  simp [skipSomeDigits, skipDigits, h]

theorem skipSomeDigits_of_takeWhile {cs : List Char} (h : (cs.takeWhile isDigit).isEmpty = false) :
    skipSomeDigits cs = some (cs.dropWhile isDigit) := by
  cases cs with
  | nil => cases h
  | cons c cs =>
    cases hc : isDigit c with
    | true => rw [skipSomeDigits_cons hc, List.dropWhile_cons_of_pos hc]
    | false => simp [hc] at h

/-- The digits that do not fit a significand are the end of those that there are. -/
theorem dropWhile_readSignificand (significand count : Nat) (cs : List Char) :
    (readSignificand significand count cs).2.2.dropWhile isDigit = cs.dropWhile isDigit := by
  induction cs generalizing significand count with
  | nil => rfl
  | cons c cs ih =>
    rw [readSignificand]
    split
    · next h => rw [ih, List.dropWhile_cons_of_pos (Bool.and_eq_true_iff.mp h).1]
    · rfl

theorem skipSign_eq_self {cs : List Char} (hplus : ∀ rest, cs = '+' :: rest → False)
    (hminus : ∀ rest, cs = '-' :: rest → False) : skipSign cs = cs := by
  unfold skipSign
  split
  · exact (hplus _ rfl).elim
  · exact (hminus _ rfl).elim
  · rfl

/-- What stands beside the rest of the text is of no account. -/
theorem eq_of_map_eq_some {o : Option Number} {cs rest : List Char} {n : Number}
    (h : o.map (·, cs) = some (n, rest)) : cs = rest := by
  obtain ⟨m, -, heq⟩ := Option.map_eq_some_iff.mp h
  exact (Prod.mk.inj heq).2

variable {negative : Bool} {cs rest : List Char} {n : Number}

theorem skipExponent_of_readExponent {significand : Nat} {power : Int}
    (h : readExponent negative significand power cs = some (n, rest)) :
    skipExponent cs = some rest := by
  unfold readExponent at h
  split at h
  · next c cs =>
    rw [skipExponent]
    split at h
    · next hmark =>
      rw [if_pos hmark]
      split at h
      next down digits hsigned =>
      have hsign : skipSign cs = digits := by
        split at hsigned
        · exact (Prod.mk.inj hsigned).2
        · exact (Prod.mk.inj hsigned).2
        · next hplus hminus =>
          rw [skipSign_eq_self hplus hminus, (Prod.mk.inj hsigned).2]
      dsimp only at h
      split at h
      · cases h
      · next hdigits =>
        rw [hsign, skipSomeDigits_of_takeWhile (Bool.eq_false_iff.mpr hdigits), eq_of_map_eq_some h]
    · next hmark => rw [if_neg hmark, eq_of_map_eq_some h]
  · rw [skipExponent, eq_of_map_eq_some h]

theorem skipFraction_of_ne {c : Char} (h : c ≠ '.') (cs : List Char) :
    skipFraction (c :: cs) = skipExponent (c :: cs) := by
  unfold skipFraction
  split
  · next heq => exact absurd (List.cons.inj heq).1 h
  · rfl

theorem skipFraction_of_readFraction {significand scale : Nat}
    (h : readFraction negative significand scale cs = some (n, rest)) :
    skipFraction cs = some rest := by
  unfold readFraction at h
  split at h
  · next c cs =>
    split at h
    · next hc =>
      split at h
      next significand' count digits hread =>
      have hdrop := dropWhile_readSignificand significand 0 (c :: cs)
      rw [hread, List.dropWhile_cons_of_pos hc] at hdrop
      have hskip := skipExponent_of_readExponent h
      rw [skipDigits, hdrop] at hskip
      rw [skipFraction, skipSomeDigits_cons hc, Option.bind_some, hskip]
    · cases h
  · cases h
  · next c cs hpoint hlast =>
    have hc : c ≠ '.' := by
      rintro rfl
      cases cs with
      | nil => exact hlast rfl rfl
      | cons d ds => exact hpoint d ds rfl rfl
    rw [skipFraction_of_ne hc]
    split at h
    · exact skipExponent_of_readExponent h
    · next hmark =>
      rw [Bool.or_eq_true, not_or, Bool.not_eq_true] at hmark
      rw [skipExponent, hmark.1, eq_of_map_eq_some h]
      rfl
  · split at h
    · exact skipExponent_of_readExponent h
    · rw [← eq_of_map_eq_some h]
      rfl

theorem skipUnsigned_of_ne {c : Char} (h : c ≠ '0') (cs : List Char) :
    skipUnsigned (c :: cs) = (skipSomeDigits (c :: cs)).bind skipFraction := by
  unfold skipUnsigned
  split
  · next heq => exact absurd (List.cons.inj heq).1 h
  · rfl

theorem skipUnsigned_of_readUnsigned (h : readUnsigned negative cs = some (n, rest)) :
    skipUnsigned cs = some rest := by
  unfold readUnsigned at h
  split at h
  · next c cs =>
    split at h
    · cases h
    · next hc =>
      rw [skipUnsigned, List.head?_cons, Option.any_some, if_neg hc]
      exact skipFraction_of_readFraction h
  · exact skipFraction_of_readFraction h
  · next c cs hnought hlast =>
    split at h
    · next hc =>
      split at h
      next significand count digits hread =>
      have hdrop := dropWhile_readSignificand 0 0 (c :: cs)
      rw [hread, List.dropWhile_cons_of_pos hc] at hdrop
      have hc' : c ≠ '0' := by
        rintro rfl
        cases cs with
        | nil => exact hlast rfl rfl
        | cons d ds => exact hnought d ds rfl rfl
      rw [skipUnsigned_of_ne hc', skipSomeDigits_cons hc, Option.bind_some, ← hdrop]
      exact skipFraction_of_readFraction h
    · cases h
  · cases h

/-- **Numbers.**  The text after a number that is read is the text after it when it is skipped. -/
theorem skip_of_read (h : read cs = some (n, rest)) : skip cs = some rest := by
  unfold read at h
  split at h
  · exact skipUnsigned_of_readUnsigned h
  · next hminus =>
    unfold skip
    split
    · exact (hminus _ rfl).elim
    · exact skipUnsigned_of_readUnsigned h

end Number

namespace Json

/-! ## Texts between quotes -/

section Quoted

variable {cs rest : List Char}

theorem skipQuoted_of_readHex {n : Nat} (h : readHex cs = some (n, rest)) :
    skipQuoted ('\\' :: 'u' :: cs) = skipQuoted rest := by
  unfold readHex at h
  split at h
  · simp only [Option.bind_eq_bind, Option.bind_eq_some_iff, Option.pure_def,
      Option.some.injEq, Prod.mk.injEq] at h
    obtain ⟨_, h₁, _, h₂, _, h₃, _, h₄, -, rfl⟩ := h
    simp [skipQuoted, h₁, h₂, h₃, h₄]
  · cases h

/-- The two escapes of a pair are skipped one after the other. -/
theorem skipQuoted_of_readEscape {c : Char} (h : readEscape cs = some (c, rest)) :
    skipQuoted ('\\' :: 'u' :: cs) = skipQuoted rest := by
  rw [readEscape] at h
  simp only [Option.bind_eq_bind, Option.bind_eq_some_iff] at h
  obtain ⟨⟨n, after⟩, hread, h⟩ := h
  rw [skipQuoted_of_readHex hread]
  dsimp only at h
  split at h
  · split at h
    · obtain ⟨⟨m, last⟩, hsecond, h⟩ := Option.bind_eq_some_iff.mp h
      dsimp only at h
      split at h
      · rw [← (Prod.mk.inj (Option.some.inj h)).2]
        exact skipQuoted_of_readHex hsecond
      · nomatch h
    · nomatch h
  · split at h
    · nomatch h
    · rw [(Prod.mk.inj (Option.some.inj h)).2]

theorem skipQuoted_of_shortEscape {c e : Char} (h : shortEscape? e = some c) :
    skipQuoted ('\\' :: e :: cs) = skipQuoted cs := by
  have he : e ≠ 'u' := by
    rintro rfl
    cases h
  simp [skipQuoted, he, h]

theorem skipQuoted_cons {c : Char} (hquote : c ≠ '\x22') (hescape : c ≠ '\\')
    (hcontrol : ¬ c.toNat < 0x20) : skipQuoted (c :: cs) = skipQuoted cs := by
  rw [skipQuoted, if_neg hcontrol] <;> simp [hquote, hescape]

theorem skipQuoted_of_readQuotedChars {fuel : Nat} {text : List Char}
    (h : readQuotedChars fuel cs = some (text, rest)) : skipQuoted cs = some rest := by
  induction fuel generalizing cs text with
  | zero => cases h
  | succ fuel ih =>
    cases cs with
    | nil => cases h
    | cons c cs =>
      -- what comes first is the closing quote, an escape of either kind, or a character as it is
      rw [readQuotedChars.eq_def] at h
      simp only [Option.bind_eq_bind, Option.pure_def] at h
      split at h
      · next hquote =>
        rw [hquote, ← (Prod.mk.inj (Option.some.inj h)).2]
        rfl
      · next hquote =>
        split at h
        · next hescape =>
          rw [hescape]
          split at h
          · nomatch h
          · next e cs =>
            split at h
            · next hnumeric =>
              obtain ⟨⟨d, after⟩, hread, h⟩ := Option.bind_eq_some_iff.mp h
              obtain ⟨⟨tail, last⟩, htail, h⟩ := Option.bind_eq_some_iff.mp h
              obtain rfl := (Prod.mk.inj (Option.some.inj h)).2
              rw [hnumeric, skipQuoted_of_readEscape hread, ih htail]
            · obtain ⟨d, hshort, h⟩ := Option.bind_eq_some_iff.mp h
              obtain ⟨⟨tail, last⟩, htail, h⟩ := Option.bind_eq_some_iff.mp h
              obtain rfl := (Prod.mk.inj (Option.some.inj h)).2
              rw [skipQuoted_of_shortEscape hshort, ih htail]
        · next hescape =>
          split at h
          · nomatch h
          · next hcontrol =>
            obtain ⟨⟨tail, last⟩, htail, h⟩ := Option.bind_eq_some_iff.mp h
            obtain rfl := (Prod.mk.inj (Option.some.inj h)).2
            rw [skipQuoted_cons hquote hescape hcontrol, ih htail]

theorem skipQuoted_of_readQuoted {fuel : Nat} {text : String}
    (h : readQuoted fuel cs = some (text, rest)) : skipQuoted cs = some rest := by
  obtain ⟨⟨chars, last⟩, hread, h⟩ := Option.map_eq_some_iff.mp h
  rw [skipQuoted_of_readQuotedChars hread, (Prod.mk.inj h).2]

theorem eq_and_skipWord_of_readWord {word : List Char} {v w : Json}
    (h : readWord word v cs = some (w, rest)) : w = v ∧ skipWord word cs = some rest := by
  unfold readWord at h
  split at h
  · next hword =>
    cases h
    exact ⟨rfl, if_pos hword⟩
  · nomatch h

end Quoted

/-! ## Values -/

/-- The ways in which a value is read from a character and the text after it. -/
inductive ReadFrom (fuel : Nat) : Nat → Char → List Char → Json → List Char → Prop
  | null {depth : Nat} {cs rest : List Char} (hword : skipWord ['u', 'l', 'l'] cs = some rest) :
    ReadFrom fuel depth 'n' cs .null rest
  | true {depth : Nat} {cs rest : List Char} (hword : skipWord ['r', 'u', 'e'] cs = some rest) :
    ReadFrom fuel depth 't' cs (.bool .true) rest
  | false {depth : Nat} {cs rest : List Char}
    (hword : skipWord ['a', 'l', 's', 'e'] cs = some rest) :
    ReadFrom fuel depth 'f' cs (.bool .false) rest
  | str {depth : Nat} {cs rest : List Char} {s : String}
    (hquoted : readQuoted fuel cs = some (s, rest)) : ReadFrom fuel depth '\x22' cs (.str s) rest
  | noItems {depth : Nat} {cs rest : List Char} (hclose : skipSpace cs = ']' :: rest) :
    ReadFrom fuel (depth + 1) '[' cs (.arr []) rest
  | items {depth : Nat} {cs rest : List Char} {items : List Json}
    (hopen : ∀ rest, skipSpace cs ≠ ']' :: rest)
    (hitems : readItems fuel depth (skipSpace cs) = some (items, rest)) :
    ReadFrom fuel (depth + 1) '[' cs (.arr items) rest
  | noMembers {depth : Nat} {cs rest : List Char} (hclose : skipSpace cs = '\x7d' :: rest) :
    ReadFrom fuel (depth + 1) '\x7b' cs (.obj []) rest
  | members {depth : Nat} {cs rest : List Char} {members : List (String × Json)}
    (hopen : ∀ rest, skipSpace cs ≠ '\x7d' :: rest)
    (hmembers : readMembers fuel depth (skipSpace cs) = some (members, rest)) :
    ReadFrom fuel (depth + 1) '\x7b' cs (.obj members) rest
  | num {depth : Nat} {c : Char} {cs rest : List Char} {n : Number}
    (hfirst : c ∉ ['n', 't', 'f', '\x22', '[', '\x7b'])
    (hnum : Number.read (c :: cs) = some (n, rest)) : ReadFrom fuel depth c cs (.num n) rest

theorem readValue_cases {fuel depth : Nat} {cs rest : List Char} {v : Json}
    (h : readValue (fuel + 1) depth cs = some (v, rest)) :
    ∃ c after, skipSpace cs = c :: after ∧ ReadFrom fuel depth c after v rest := by
  rw [readValue] at h
  cases hcs : skipSpace cs with
  | nil =>
    rw [hcs] at h
    nomatch h
  | cons c after =>
    rw [hcs] at h
    refine ⟨c, after, rfl, ?_⟩
    dsimp only at h
    split at h
    · next hfirst =>
      obtain ⟨rfl, hword⟩ := eq_and_skipWord_of_readWord h
      exact hfirst ▸ .null hword
    split at h
    · next hfirst =>
      obtain ⟨rfl, hword⟩ := eq_and_skipWord_of_readWord h
      exact hfirst ▸ .true hword
    split at h
    · next hfirst =>
      obtain ⟨rfl, hword⟩ := eq_and_skipWord_of_readWord h
      exact hfirst ▸ .false hword
    split at h
    · next hfirst =>
      obtain ⟨⟨s, last⟩, hread, h⟩ := Option.map_eq_some_iff.mp h
      cases h
      exact hfirst ▸ .str hread
    split at h
    · next hfirst =>
      cases depth with
      | zero => nomatch h
      | succ depth =>
        dsimp only at h
        split at h
        · next hclose =>
          cases h
          exact hfirst ▸ .noItems hclose
        · next hopen =>
          obtain ⟨⟨items, last⟩, hread, h⟩ := Option.map_eq_some_iff.mp h
          cases h
          exact hfirst ▸ .items hopen hread
    split at h
    · next hfirst =>
      cases depth with
      | zero => nomatch h
      | succ depth =>
        dsimp only at h
        split at h
        · next hclose =>
          cases h
          exact hfirst ▸ .noMembers hclose
        · next hopen =>
          obtain ⟨⟨members, last⟩, hread, h⟩ := Option.map_eq_some_iff.mp h
          cases h
          exact hfirst ▸ .members hopen hread
    · next hnull htrue hfalse hquote hbracket hbrace =>
      obtain ⟨⟨n, last⟩, hread, h⟩ := Option.map_eq_some_iff.mp h
      cases h
      exact .num (by simp [hnull, htrue, hfalse, hquote, hbracket, hbrace]) hread

/-- The ways in which members are read: up to a comma with others after it, or up to the closing
brace. -/
inductive ReadMembers (fuel depth : Nat) (cs rest : List Char) : List (String × Json) → Prop
  | comma {afterQuote afterKey afterColon after afterComma : List Char} {key : String} {v : Json}
    {others : List (String × Json)} (hquote : skipSpace cs = '\x22' :: afterQuote)
    (hkey : readQuoted fuel afterQuote = some (key, afterKey))
    (hcolon : skipSpace afterKey = ':' :: afterColon)
    (hv : readValue fuel depth afterColon = some (v, after))
    (hcomma : skipSpace after = ',' :: afterComma)
    (hothers : readMembers fuel depth afterComma = some (others, rest)) :
    ReadMembers fuel depth cs rest ((key, v) :: others)
  | brace {afterQuote afterKey afterColon after : List Char} {key : String} {v : Json}
    (hquote : skipSpace cs = '\x22' :: afterQuote)
    (hkey : readQuoted fuel afterQuote = some (key, afterKey))
    (hcolon : skipSpace afterKey = ':' :: afterColon)
    (hv : readValue fuel depth afterColon = some (v, after))
    (hbrace : skipSpace after = '\x7d' :: rest) : ReadMembers fuel depth cs rest [(key, v)]

theorem readMembers_cases {fuel depth : Nat} {cs rest : List Char}
    {members : List (String × Json)} (h : readMembers (fuel + 1) depth cs = some (members, rest)) :
    ReadMembers fuel depth cs rest members := by
  rw [readMembers] at h
  split at h
  · next afterQuote hquote =>
    obtain ⟨⟨key, afterKey⟩, hkey, h⟩ := Option.bind_eq_some_iff.mp h
    dsimp only at h
    split at h
    · next afterColon hcolon =>
      obtain ⟨⟨v, after⟩, hv, h⟩ := Option.bind_eq_some_iff.mp h
      dsimp only at h
      split at h
      · next afterComma hcomma =>
        obtain ⟨⟨others, last⟩, hothers, h⟩ := Option.bind_eq_some_iff.mp h
        cases h
        exact .comma hquote hkey hcolon hv hcomma hothers
      · next hbrace =>
        cases h
        exact .brace hquote hkey hcolon hv hbrace
      · nomatch h
    · nomatch h
  · nomatch h

section Steps

variable {fuel : Nat} {cs after rest : List Char}

/-! One step of skipping, for each of the characters at which it goes on or ends. -/

theorem skipItems_comma (hv : skipValue fuel cs = some after)
    (hcomma : skipSpace after = ',' :: rest) : skipItems (fuel + 1) cs = skipItems fuel rest := by
  simp only [skipItems, hv, hcomma, Option.bind_eq_bind, Option.bind_some]

theorem skipItems_bracket (hv : skipValue fuel cs = some after)
    (hbracket : skipSpace after = ']' :: rest) : skipItems (fuel + 1) cs = some rest := by
  simp only [skipItems, hv, hbracket, Option.bind_eq_bind, Option.bind_some, Option.pure_def]

variable {afterQuote afterKey afterColon : List Char}

theorem skipMembers_comma (hquote : skipSpace cs = '\x22' :: afterQuote)
    (hkey : skipQuoted afterQuote = some afterKey)
    (hcolon : skipSpace afterKey = ':' :: afterColon) (hv : skipValue fuel afterColon = some after)
    (hcomma : skipSpace after = ',' :: rest) :
    skipMembers (fuel + 1) cs = skipMembers fuel rest := by
  simp only [skipMembers, hquote, hkey, hcolon, hv, hcomma, Option.bind_eq_bind, Option.bind_some]

theorem skipMembers_brace (hquote : skipSpace cs = '\x22' :: afterQuote)
    (hkey : skipQuoted afterQuote = some afterKey)
    (hcolon : skipSpace afterKey = ':' :: afterColon) (hv : skipValue fuel afterColon = some after)
    (hbrace : skipSpace after = '\x7d' :: rest) : skipMembers (fuel + 1) cs = some rest := by
  simp only [skipMembers, hquote, hkey, hcolon, hv, hbrace, Option.bind_eq_bind, Option.bind_some,
    Option.pure_def]

end Steps

mutual

/-- **Values.**  The text after a value that is read is the text after it when it is skipped. -/
theorem skipValue_of_readValue : ∀ {fuel depth : Nat} {cs rest : List Char} {v : Json},
    readValue fuel depth cs = some (v, rest) → skipValue fuel cs = some rest
  | 0, _, _, _, _, h => nomatch h
  | fuel + 1, depth, cs, rest, v, h => by
    obtain ⟨c, after, hcs, hread⟩ := readValue_cases h
    rw [skipValue, hcs]
    cases hread with
    | null hword | true hword | false hword => exact hword
    | str hquoted => exact skipQuoted_of_readQuoted hquoted
    | noItems hclose | noMembers hclose =>
      simp only [hclose]
      rfl
    | items hopen hitems =>
      simp only [Char.reduceEq, if_false, if_true]
      exact skipItems_of_readItems hitems
    | members hopen hmembers =>
      simp only [Char.reduceEq, if_false, if_true]
      exact skipMembers_of_readMembers hmembers
    | num hfirst hnum =>
      simp only [List.mem_cons, not_or] at hfirst
      simp only [hfirst, if_false]
      exact Number.skip_of_read hnum

theorem skipItems_of_readItems : ∀ {fuel depth : Nat} {cs rest : List Char} {items : List Json},
    readItems fuel depth cs = some (items, rest) → skipItems fuel cs = some rest
  | 0, _, _, _, _, h => nomatch h
  | fuel + 1, depth, cs, rest, items, h => by
    rw [readItems] at h
    obtain ⟨⟨v, after⟩, hv, h⟩ := Option.bind_eq_some_iff.mp h
    have hskip := skipValue_of_readValue hv
    dsimp only at h
    split at h
    · next hcomma =>
      obtain ⟨⟨items, last⟩, hitems, h⟩ := Option.bind_eq_some_iff.mp h
      obtain rfl := (Prod.mk.inj (Option.some.inj h)).2
      exact (skipItems_comma hskip hcomma).trans (skipItems_of_readItems hitems)
    · next hbracket =>
      obtain rfl := (Prod.mk.inj (Option.some.inj h)).2
      exact skipItems_bracket hskip hbracket
    · nomatch h

theorem skipMembers_of_readMembers : ∀ {fuel depth : Nat} {cs rest : List Char}
    {members : List (String × Json)},
    readMembers fuel depth cs = some (members, rest) → skipMembers fuel cs = some rest
  | 0, _, _, _, _, h => nomatch h
  | fuel + 1, depth, cs, rest, members, h => by
    cases readMembers_cases h with
    | comma hquote hkey hcolon hv hcomma hothers =>
      have hkey := skipQuoted_of_readQuoted hkey
      have hv := skipValue_of_readValue hv
      exact (skipMembers_comma hquote hkey hcolon hv hcomma).trans
        (skipMembers_of_readMembers hothers)
    | brace hquote hkey hcolon hv hbrace =>
      have hkey := skipQuoted_of_readQuoted hkey
      have hv := skipValue_of_readValue hv
      exact skipMembers_brace hquote hkey hcolon hv hbrace

end

/-! ## Records -/

/-- A value, of an object only the members with one of several names. -/
def keeping (names : List String) : Json → Json
  | obj members => obj (members.filter fun m => names.contains m.1)
  | v => v

section Records

variable {names : List String}

/-- The fields of a record that has the names are not among those left out. -/
theorem exists_fields?_of_keeping {v : Json} {fields : Members Json}
    (h : (v.keeping names).fields? names = some fields) :
    ∃ written, v.fields? names = some written ∧
      ∀ name ∈ names, Members.get? written name = Members.get? fields name := by
  cases v with
  | obj members =>
    obtain rfl := Option.some.inj h
    refine ⟨members, rfl, fun name hname => ?_⟩
    exact (Members.get?_filter_key (List.contains_iff_mem.mpr hname) members).symm
  | _ => exact ⟨fields, h, fun _ _ => rfl⟩

theorem readField_of_readValue {key : String} {fuel depth : Nat} {cs rest : List Char} {v : Json}
    (h : readValue fuel depth cs = some (v, rest)) :
    readField names key fuel depth cs =
      some ([(key, v)].filter fun m => names.contains m.1, rest) := by
  rw [readField]
  split
  · next hname =>
    rw [h, List.filter_cons_of_pos (a := (key, v)) hname]
    rfl
  · next hname =>
    rw [skipValue_of_readValue h, List.filter_cons_of_neg (a := (key, v)) hname]
    rfl

theorem readFields_of_readMembers {fuel depth : Nat} {cs rest : List Char}
    {members : List (String × Json)} (h : readMembers fuel depth cs = some (members, rest)) :
    readFields names fuel depth cs =
      some (members.filter fun m => names.contains m.1, rest) := by
  induction fuel generalizing cs members with
  | zero => nomatch h
  | succ fuel ih =>
    cases readMembers_cases h with
    | comma hquote hkey hcolon hv hcomma hothers =>
      simp only [readFields, hquote, hkey, hcolon, readField_of_readValue hv, hcomma, ih hothers,
        Option.bind_eq_bind, Option.bind_some, Option.pure_def]
      rw [← List.filter_append, List.singleton_append]
    | brace hquote hkey hcolon hv hbrace =>
      simp only [readFields, hquote, hkey, hcolon, readField_of_readValue hv, hbrace,
        Option.bind_eq_bind, Option.bind_some, Option.pure_def]

theorem readRecord_of_ne {fuel depth : Nat} {c : Char} {cs after : List Char} (hc : c ≠ '\x7b')
    (hcs : skipSpace cs = c :: after) :
    readRecord names fuel depth cs = readValue fuel depth cs := by
  unfold readRecord
  split
  · split
    · next hbrace => exact absurd (List.cons.inj (hcs.symm.trans hbrace)).1 hc
    · rfl
  · rfl

theorem readRecord_of_readValue {fuel depth : Nat} {cs rest : List Char} {v : Json}
    (h : readValue fuel depth cs = some (v, rest)) :
    readRecord names fuel depth cs = some (v.keeping names, rest) := by
  cases fuel with
  | zero => nomatch h
  | succ fuel =>
    obtain ⟨c, after, hcs, hread⟩ := readValue_cases h
    cases hread with
    | noMembers hclose =>
      simp only [readRecord, hcs, hclose]
      rfl
    | members hopen hmembers =>
      simp only [readRecord, hcs, readFields_of_readMembers hmembers]
      rfl
    | num hfirst =>
      have hc : c ≠ '\x7b' := by
        rintro rfl
        exact hfirst (by decide)
      rw [readRecord_of_ne hc hcs, h]
      rfl
    | _ =>
      rw [readRecord_of_ne (by decide) hcs, h]
      rfl

/-- **Records.**  Where a whole text is a value, the record that it reads as is that value without
the members of other names. -/
theorem parseRecord?_of_parseWritten? {depth : Nat} {s : String} {v : Json}
    (h : parseWritten? depth s = some v) :
    parseRecord? names depth s = some (v.keeping names) := by
  rw [parseWritten?] at h
  rw [parseRecord?]
  split at h
  · next w rest hread =>
    split at h
    · next hend =>
      cases h
      rw [readRecord_of_readValue hread]
      exact if_pos hend
    · nomatch h
  · nomatch h

/-- There is a record where there is no value, since half of a pair of surrogates can be skipped. -/
example : (parseWritten? 127 "\x7b\"x\":\"\\ud800\"\x7d").isNone ∧
    (parseRecord? ["y"] 127 "\x7b\"x\":\"\\ud800\"\x7d").isSome := by
  decide +kernel

end Records

end Json
end LintSetup
