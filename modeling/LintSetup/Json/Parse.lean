import LintSetup.Json.Basic
import LintSetup.Text.Digits

/-!
# Reading JSON

Reading is over the characters of a text and gives the value and what is left.  Every call consumes
at least one character, so the length of the text bounds the number of calls; a second number
bounds how deeply lists and objects may be nested.

* `Number.read` --- a number.  Its significand takes digits as long as it fits 64 bits; the digits
  after that only count.  Whole numbers that fit are kept, and the rest are scaled to a double
  (`Decimal.scale?`); a number beyond the largest double is refused;
* `Json.readQuoted` --- a text between quotes.  A surrogate has to be one half of a pair;
* `Json.readValue` --- a value with the members of its objects as written;
* `Json.merged` --- the value in which a repeated key keeps its first position and its last value;
* `Json.parse?` --- a whole text.
-/

namespace LintSetup

open Text (isDigit digitValue hexValue?)

namespace Number

/-- The largest significand. -/
def maxSignificand : Nat := Nat.pow 2 64 - 1

/-- Takes digits into a significand while it fits; gives it with the number of digits taken and the
rest. -/
def readSignificand (significand count : Nat) : List Char → Nat × Nat × List Char
  | [] => (significand, count, [])
  | c :: cs =>
    if isDigit c && significand * 10 + digitValue c ≤ maxSignificand then
      readSignificand (significand * 10 + digitValue c) (count + 1) cs
    else (significand, count, c :: cs)

/-- The number of digits at the start of a text, and the text after them. -/
def skipDigits (cs : List Char) : Nat × List Char :=
  ((cs.takeWhile isDigit).length, cs.dropWhile isDigit)

/-- The value of a run of digits. -/
def valueOf (ds : List Char) : Nat := ds.foldl (fun n c => n * 10 + digitValue c) 0

/-- The double that is `significand * 10 ^ power`. -/
def scaled? (negative : Bool) (significand : Nat) (power : Int) : Option Number :=
  ((Decimal.Binary.ofNat? significand).bind (Decimal.scale? · power)).map fun x =>
    .double negative x.shortest

/-- Reads the exponent, if one follows, and scales. -/
def readExponent (negative : Bool) (significand : Nat) (power : Int) (cs : List Char) :
    Option (Number × List Char) :=
  match cs with
  | c :: cs' =>
    if c = 'e' || c = 'E' then
      let (down, cs') :=
        match cs' with
        | '+' :: rest => (false, rest)
        | '-' :: rest => (true, rest)
        | rest => (false, rest)
      let ds := cs'.takeWhile isDigit
      if ds.isEmpty then none
      else
        let e : Int := valueOf ds
        (scaled? negative significand (if down then power - e else power + e)).map
          (·, cs'.dropWhile isDigit)
    else (scaled? negative significand power).map (·, cs)
  | [] => (scaled? negative significand power).map (·, cs)

/-- A whole number that is written without point and exponent and fits the significand. -/
def ofSignificand? (negative : Bool) (significand : Nat) : Option Number :=
  if !negative then some (.whole significand)
  else if 0 < significand && significand ≤ Nat.pow 2 63 then some (.whole (-significand))
  else scaled? true significand 0

/-- Reads what follows the whole part: `scale` digits of it did not fit the significand. -/
def readFraction (negative : Bool) (significand scale : Nat) (cs : List Char) :
    Option (Number × List Char) :=
  match cs with
  | '.' :: c :: cs' =>
    if isDigit c then
      let (significand, count, rest) := readSignificand significand 0 (c :: cs')
      readExponent negative significand ((scale : Int) - count) (skipDigits rest).2
    else none
  | ['.'] => none
  | c :: _ =>
    if c = 'e' || c = 'E' || 0 < scale then readExponent negative significand scale cs
    else (ofSignificand? negative significand).map (·, cs)
  | [] =>
    if 0 < scale then readExponent negative significand scale cs
    else (ofSignificand? negative significand).map (·, cs)

/-- Reads a number without its sign. -/
def readUnsigned (negative : Bool) : List Char → Option (Number × List Char)
  | '0' :: c :: cs => if isDigit c then none else readFraction negative 0 0 (c :: cs)
  | ['0'] => readFraction negative 0 0 []
  | c :: cs =>
    if isDigit c then
      let (significand, _, rest) := readSignificand 0 0 (c :: cs)
      let (scale, rest) := skipDigits rest
      readFraction negative significand scale rest
    else none
  | [] => none

/-- Reads a number. -/
def read : List Char → Option (Number × List Char)
  | '-' :: cs => readUnsigned true cs
  | cs => readUnsigned false cs

end Number

namespace Json

/-- Space that may stand between the parts of a value. -/
def isSpace (c : Char) : Bool := c = ' ' || c = '\t' || c = '\n' || c = '\r'

/-- A text without the space at its start. -/
def skipSpace (cs : List Char) : List Char := cs.dropWhile isSpace

/-- Four hexadecimal digits. -/
def readHex : List Char → Option (Nat × List Char)
  | a :: b :: c :: d :: rest => do
    let a ← hexValue? a
    let b ← hexValue? b
    let c ← hexValue? c
    let d ← hexValue? d
    return (((a * 16 + b) * 16 + c) * 16 + d, rest)
  | _ => none

/-- The character of a numeric escape, whose first four digits come first.  A leading surrogate
takes the escape after it; any other surrogate is refused. -/
def readEscape (cs : List Char) : Option (Char × List Char) := do
  let (n, rest) ← readHex cs
  if 0xD800 ≤ n && n ≤ 0xDBFF then
    match rest with
    | '\\' :: 'u' :: rest =>
      let (m, rest) ← readHex rest
      if 0xDC00 ≤ m && m ≤ 0xDFFF then
        return (Char.ofNat (0x10000 + (n - 0xD800) * 1024 + (m - 0xDC00)), rest)
      else none
    | _ => none
  else if 0xDC00 ≤ n && n ≤ 0xDFFF then none
  else return (Char.ofNat n, rest)

/-- The character that a one-letter escape stands for. -/
def shortEscape? (c : Char) : Option Char :=
  if c = '\x22' then some '\x22'
  else if c = '\\' then some '\\'
  else if c = '/' then some '/'
  else if c = 'b' then some '\x08'
  else if c = 'f' then some '\x0c'
  else if c = 'n' then some '\n'
  else if c = 'r' then some '\r'
  else if c = 't' then some '\t'
  else none

/-- The characters of a text up to its closing quote; `fuel` bounds their number. -/
def readQuotedChars : Nat → List Char → Option (List Char × List Char)
  | 0, _ => none
  | _ + 1, [] => none
  | fuel + 1, c :: cs =>
    if c = '\x22' then some ([], cs)
    else if c = '\\' then
      match cs with
      | [] => none
      | e :: cs =>
        if e = 'u' then do
          let (c, rest) ← readEscape cs
          let (text, rest) ← readQuotedChars fuel rest
          return (c :: text, rest)
        else do
          let c ← shortEscape? e
          let (text, rest) ← readQuotedChars fuel cs
          return (c :: text, rest)
    else if c.toNat < 0x20 then none
    else do
      let (text, rest) ← readQuotedChars fuel cs
      return (c :: text, rest)

/-- A text whose opening quote has been read. -/
def readQuoted (fuel : Nat) (cs : List Char) : Option (String × List Char) :=
  (readQuotedChars fuel cs).map fun (text, rest) => (String.ofList text, rest)

/-- A fixed word. -/
def readWord (word : List Char) (v : Json) (cs : List Char) : Option (Json × List Char) :=
  if word.isPrefixOf cs then some (v, cs.drop word.length) else none

mutual

/-- Reads a value after optional space; lists and objects may be nested `depth` deep. -/
def readValue : Nat → Nat → List Char → Option (Json × List Char)
  | 0, _, _ => none
  | fuel + 1, depth, cs =>
    match skipSpace cs with
    | [] => none
    | c :: cs =>
      if c = 'n' then readWord ['u', 'l', 'l'] null cs
      else if c = 't' then readWord ['r', 'u', 'e'] (bool true) cs
      else if c = 'f' then readWord ['a', 'l', 's', 'e'] (bool false) cs
      else if c = '\x22' then (readQuoted fuel cs).map fun (s, rest) => (str s, rest)
      else if c = '[' then
        match depth with
        | 0 => none
        | depth + 1 =>
          match skipSpace cs with
          | ']' :: rest => some (arr [], rest)
          | cs => (readItems fuel depth cs).map fun (items, rest) => (arr items, rest)
      else if c = '\x7b' then
        match depth with
        | 0 => none
        | depth + 1 =>
          match skipSpace cs with
          | '\x7d' :: rest => some (obj [], rest)
          | cs => (readMembers fuel depth cs).map fun (members, rest) => (obj members, rest)
      else (Number.read (c :: cs)).map fun (n, rest) => (num n, rest)

/-- Reads the items of a list that is not empty, and its closing bracket. -/
def readItems : Nat → Nat → List Char → Option (List Json × List Char)
  | 0, _, _ => none
  | fuel + 1, depth, cs => do
    let (v, cs) ← readValue fuel depth cs
    match skipSpace cs with
    | ',' :: cs => do
      let (items, rest) ← readItems fuel depth cs
      return (v :: items, rest)
    | ']' :: rest => return ([v], rest)
    | _ => none

/-- Reads the members of an object that is not empty, and its closing brace. -/
def readMembers : Nat → Nat → List Char → Option (List (String × Json) × List Char)
  | 0, _, _ => none
  | fuel + 1, depth, cs =>
    match skipSpace cs with
    | '\x22' :: cs => do
      let (key, cs) ← readQuoted fuel cs
      match skipSpace cs with
      | ':' :: cs => do
        let (v, cs) ← readValue fuel depth cs
        match skipSpace cs with
        | ',' :: cs => do
          let (members, rest) ← readMembers fuel depth cs
          return ((key, v) :: members, rest)
        | '\x7d' :: rest => return ([(key, v)], rest)
        | _ => none
      | _ => none
    | _ => none

end

/-- How deeply the texts that the program reads may be nested. -/
def maxDepth : Nat := 127

/-- The value of a whole text, members as written. -/
def parseWritten? (depth : Nat) (s : String) : Option Json :=
  let cs := s.toList
  match readValue (2 * cs.length + 2) depth cs with
  | some (v, rest) => if (skipSpace rest).isEmpty then some v else none
  | none => none

mutual

/-- The value in which every key of an object occurs once. -/
def merged : Json → Json
  | arr items => arr (mergedItems items)
  | obj members => obj (Members.ofList (mergedMembers members))
  | null => null
  | bool b => bool b
  | num n => num n
  | str s => str s

/-- `merged` on lists. -/
def mergedItems : List Json → List Json
  | [] => []
  | v :: rest => merged v :: mergedItems rest

/-- `merged` on members, which may still repeat a key. -/
def mergedMembers : List (String × Json) → List (String × Json)
  | [] => []
  | (k, v) :: rest => (k, merged v) :: mergedMembers rest

end

/-- The value of a whole text that is nested at most `depth` deep. -/
def parseWithin? (depth : Nat) (s : String) : Option Json := (parseWritten? depth s).map merged

/-- The value of a whole text. -/
def parse? (s : String) : Option Json := parseWithin? maxDepth s

end Json
end LintSetup
