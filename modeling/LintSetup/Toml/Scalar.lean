import LintSetup.Decimal.Binary
import LintSetup.Text.Digits
import LintSetup.Toml.Basic

/-!
# Scalars of a settings document

Strings come between single or double quotes, one or three of each kind; between double quotes there
are escapes, and between three quotes line breaks.  Everything else that is no list and no table is
one run of letters, digits and signs: a truth value, a number, a date or a time.

* `readString` --- a string, from its first quote on;
* `word?` --- the value of a run.
-/

namespace LintSetup.Toml

open Text (isDigit hexValue? digitsValue?)

/-- Whether a character may stand in a string or a comment as it is: a control character may not,
except for the tab. -/
def isPlain (c : Char) : Bool := c == '\t' || (0x20 ≤ c.toNat && c.toNat != 0x7F)

/-- The character with a code point, if there is one. -/
def charAt? (n : Nat) : Option Char :=
  if n < 0xD800 || (0xE000 ≤ n && n < 0x110000) then some (Char.ofNat n) else none

/-- The character that a backslash and what follows it stand for, and the rest. -/
def readEscape : List Char → Option (Char × List Char)
  | 'b' :: rest => some ('\x08', rest)
  | 't' :: rest => some ('\t', rest)
  | 'n' :: rest => some ('\n', rest)
  | 'f' :: rest => some ('\x0c', rest)
  | 'r' :: rest => some ('\r', rest)
  | '\x22' :: rest => some ('\x22', rest)
  | '\\' :: rest => some ('\\', rest)
  | 'u' :: rest =>
    if 4 ≤ rest.length then
      ((digitsValue? 16 (rest.take 4)).bind charAt?).map (·, rest.drop 4)
    else none
  | 'U' :: rest =>
    if 8 ≤ rest.length then
      ((digitsValue? 16 (rest.take 8)).bind charAt?).map (·, rest.drop 8)
    else none
  | _ => none

/-- A text without the line break at its start. -/
def dropBreak : List Char → List Char
  | '\n' :: rest => rest
  | '\r' :: '\n' :: rest => rest
  | cs => cs

/-- Whether a character is white space or part of a line break. -/
def isSpacing (c : Char) : Bool := c == ' ' || c == '\t' || c == '\n' || c == '\r'

/-- What follows a backslash at the end of a line: the rest from the next visible character on.
`none` if the backslash is not at the end of a line. -/
def skipLineEnd (cs : List Char) : Option (List Char) :=
  match cs.dropWhile fun c => c == ' ' || c == '\t' with
  | '\n' :: rest => some (rest.dropWhile isSpacing)
  | '\r' :: '\n' :: rest => some (rest.dropWhile isSpacing)
  | _ => none

/-- The rest of a string between single marks `quote`; `escapes` says whether it has escapes. -/
def readShort (quote : Char) (escapes : Bool) : Nat → List Char → Option (List Char × List Char)
  | 0, _ => none
  | _ + 1, [] => none
  | fuel + 1, c :: rest =>
    if c = quote then some ([], rest)
    else if escapes && c == '\\' then
      (readEscape rest).bind fun (e, rest) =>
        (readShort quote escapes fuel rest).map fun (s, rest) => (e :: s, rest)
    else if isPlain c then
      (readShort quote escapes fuel rest).map fun (s, rest) => (c :: s, rest)
    else none

/-- The rest of a string between triple marks.  One or two marks right before the closing ones
belong to the string. -/
def readLong (quote : Char) (escapes : Bool) : Nat → List Char → Option (List Char × List Char)
  | 0, _ => none
  | _ + 1, [] => none
  | fuel + 1, c :: rest =>
    if c = quote && rest.take 2 == [quote, quote] then
      let more := ((rest.drop 2).take 2).takeWhile (· == quote)
      some (more, rest.drop (2 + more.length))
    else if escapes && c == '\\' then
      match readEscape rest with
      | some (e, rest) => (readLong quote escapes fuel rest).map fun (s, rest) => (e :: s, rest)
      | none => (skipLineEnd rest).bind (readLong quote escapes fuel)
    else if c == '\n' || isPlain c then
      (readLong quote escapes fuel rest).map fun (s, rest) => (c :: s, rest)
    else if c == '\r' && rest.head? == some '\n' then
      (readLong quote escapes fuel (rest.drop 1)).map fun (s, rest) => ('\n' :: s, rest)
    else none

/-- A string, from its first quote on, and the rest.  Only a value may have three quotes. -/
def readString (long : Bool) (cs : List Char) : Option (String × List Char) :=
  let read (quote : Char) (escapes : Bool) (rest : List Char) : Option (List Char × List Char) :=
    if long && rest.take 2 == [quote, quote] then
      readLong quote escapes (rest.length + 1) (dropBreak (rest.drop 2))
    else readShort quote escapes (rest.length + 1) rest
  let found :=
    match cs with
    | '\x22' :: rest => read '\x22' true rest
    | '\x27' :: rest => read '\x27' false rest
    | _ => none
  found.map fun (s, rest) => (String.ofList s, rest)

/-- Digits without the underscores between them.  Every underscore has a digit on both sides. -/
def plainDigits? : List Char → Option (List Char)
  | [] => none
  | [d] => if d = '_' then none else some [d]
  | d :: '_' :: e :: rest =>
    if d = '_' || e = '_' then none else (plainDigits? (e :: rest)).map (d :: ·)
  | d :: e :: rest =>
    if d = '_' || e = '_' then none else (plainDigits? (e :: rest)).map (d :: ·)

/-- The value of digits of a base that may have underscores between them. -/
def grouped? (base : Nat) (cs : List Char) : Option Nat := (plainDigits? cs).bind (digitsValue? base)

/-- The value of a decimal number in whose digits no nought comes first. -/
def decimal? (cs : List Char) : Option Nat :=
  match cs with
  | '0' :: _ :: _ => none
  | cs => grouped? 10 cs

/-- A text without its sign, and whether the sign is a minus. -/
def splitSign : List Char → Bool × List Char
  | '-' :: rest => (true, rest)
  | '+' :: rest => (false, rest)
  | cs => (false, cs)

/-- A whole number of 64 bits. -/
def integer? (cs : List Char) : Option Int :=
  match cs with
  | '0' :: 'x' :: rest => ((grouped? 16 rest).filter (· < Nat.pow 2 63)).map Int.ofNat
  | '0' :: 'o' :: rest => ((grouped? 8 rest).filter (· < Nat.pow 2 63)).map Int.ofNat
  | '0' :: 'b' :: rest => ((grouped? 2 rest).filter (· < Nat.pow 2 63)).map Int.ofNat
  | cs =>
    match splitSign cs with
    | (true, ds) => ((decimal? ds).filter (· ≤ Nat.pow 2 63)).map fun n => -(n : Int)
    | (false, ds) => ((decimal? ds).filter (· < Nat.pow 2 63)).map Int.ofNat

/-- The exponent that a text is: a letter, a sign or none, and digits. -/
def exponent? : List Char → Option Int
  | e :: rest =>
    let (negative, ds) := splitSign rest
    if e = 'e' || e = 'E' then (grouped? 10 ds).map fun n => if negative then -(n : Int) else n
    else none
  | [] => none

/-- Whether a text is a number with a point or an exponent.  One that is too large for a double is
not, unless it is negative. -/
def isFraction (cs : List Char) : Bool :=
  let (negative, body) := splitSign cs
  if body == ['i', 'n', 'f'] || body == ['n', 'a', 'n'] then true
  else
    let isMark (c : Char) : Bool := c == '.' || c == 'e' || c == 'E'
    let isReadable (digits : List Char) (exponent : Option Int) : Bool :=
      match digitsValue? 10 digits, exponent with
      | some n, some e => negative || Decimal.isFinite n e
      | _, _ => false
    let whole := body.takeWhile (!isMark ·)
    let rest := body.dropWhile (!isMark ·)
    (decimal? whole).isSome &&
      match plainDigits? whole, rest with
      | some whole, '.' :: rest =>
        let further := rest.dropWhile (!isMark ·)
        match plainDigits? (rest.takeWhile (!isMark ·)) with
        | some fraction =>
          isReadable (whole ++ fraction)
            ((if further.isEmpty then some 0 else exponent? further).map (· - fraction.length))
        | none => false
      | some whole, rest => isReadable whole (exponent? rest)
      | none, _ => false

/-- The value of exactly `n` digits at the start of a text, and the rest. -/
def fixedDigits (n : Nat) (cs : List Char) : Option (Nat × List Char) :=
  if (cs.take n).length = n && (cs.take n).all isDigit then
    (digitsValue? 10 (cs.take n)).map (·, cs.drop n)
  else none

/-- A text after a character that it has to start with. -/
def after (c : Char) : List Char → Option (List Char)
  | d :: rest => if c = d then some rest else none
  | [] => none

/-- The number of days of a month. -/
def daysOf (year month : Nat) : Nat :=
  if month = 2 then
    if year % 4 = 0 && (year % 100 != 0 || year % 400 = 0) then 29 else 28
  else if month = 4 || month = 6 || month = 9 || month = 11 then 30
  else 31

/-- What follows a date. -/
def afterDate (cs : List Char) : Option (List Char) := do
  let (year, cs) ← fixedDigits 4 cs
  let (month, cs) ← fixedDigits 2 (← after '-' cs)
  let (day, cs) ← fixedDigits 2 (← after '-' cs)
  if 1 ≤ month && month ≤ 12 && 1 ≤ day && day ≤ daysOf year month then some cs else none

/-- What follows the fraction of a second, if there is one. -/
def afterFraction : List Char → Option (List Char)
  | '.' :: d :: rest => if isDigit d then some (rest.dropWhile isDigit) else none
  | '.' :: [] => none
  | cs => some cs

/-- What follows a time of day. -/
def afterTime (cs : List Char) : Option (List Char) := do
  let (hour, cs) ← fixedDigits 2 cs
  let (minute, cs) ← fixedDigits 2 (← after ':' cs)
  let (second, cs) ← fixedDigits 2 (← after ':' cs)
  if hour ≤ 23 && minute ≤ 59 && second ≤ 60 then afterFraction cs else none

/-- Whether a text is the offset of a time zone. -/
def isOffset : List Char → Bool
  | ['Z'] => true
  | ['z'] => true
  | sign :: cs =>
    (sign == '+' || sign == '-') &&
      ((do
        let (hour, cs) ← fixedDigits 2 cs
        let (minute, cs) ← fixedDigits 2 (← after ':' cs)
        if hour ≤ 23 && minute ≤ 59 && cs.isEmpty then some () else none).isSome)
  | [] => false

/-- Whether a text is a date, a time, or both with an offset or without. -/
def isMoment (cs : List Char) : Bool :=
  match afterDate cs with
  | some [] => true
  | some (mark :: rest) =>
    (mark == 'T' || mark == 't' || mark == ' ') &&
      match afterTime rest with
      | some rest => rest.isEmpty || isOffset rest
      | none => false
  | none => afterTime cs == some []

/-- Whether a character may stand in a value that has no quotes. -/
def isWordChar (c : Char) : Bool :=
  c.isAlphanum || c == '+' || c == '-' || c == '_' || c == '.' || c == ':'

/-- The value of a run of letters, digits and signs. -/
def word? (cs : List Char) : Option Toml :=
  if cs == ['t', 'r', 'u', 'e'] then some (truth true)
  else if cs == ['f', 'a', 'l', 's', 'e'] then some (truth false)
  else
    match integer? cs with
    | some n => some (whole n)
    | none => if isFraction cs || isMoment cs then some other else none

/-- The value that a run is, and the rest.  A date may go on with a time after a single space. -/
def readWord (cs : List Char) : Option (Toml × List Char) :=
  let run := cs.takeWhile isWordChar
  let rest := cs.dropWhile isWordChar
  match afterDate run, rest with
  | some [], ' ' :: d :: more =>
    if isDigit d then
      let time := (d :: more).takeWhile isWordChar
      (word? (run ++ ' ' :: time)).map (·, (d :: more).dropWhile isWordChar)
    else (word? run).map (·, rest)
  | _, _ => (word? run).map (·, rest)

end LintSetup.Toml
