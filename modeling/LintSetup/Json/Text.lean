import LintSetup.Json.Basic

/-!
# The text of a JSON value

Two layouts.  The compact one has no space at all; it is the *text* of a value in messages, requests
and answers.  The indented one has four spaces a level and is the form of a configuration file.

A double is written in positional form while its decimal point stands from four noughts before the
first digit up to the sixteenth digit, always with a digit after the point, and in scientific form
otherwise, in which a positive exponent has a plus sign.  `Number.layout` holds these decisions.

* `Number.chars` --- the text of a number;
* `quotedChars` --- a text between quotes, with the short escapes, and four hexadecimal digits for
  the other control characters; nothing else is escaped;
* `Json.compact`, `Json.indented` --- the two layouts.
-/

namespace LintSetup

/-- The decimal digits of a natural number. -/
def digitChars (n : Nat) : List Char := Nat.toDigits 10 n

/-- The decimal digits of an integer, after a minus sign if it is negative. -/
def intChars (n : Int) : List Char :=
  if n < 0 then '-' :: digitChars n.natAbs else digitChars n.natAbs

/-- Where positional notation ends: the decimal point may stand after at most `whole` digits and
before at most `noughts` noughts that follow it.  `plus` says whether a positive exponent has a
sign. -/
structure NumberLayout where
  whole : Nat
  noughts : Nat
  plus : Bool

/-- Sixteen digits before the point, four noughts after it, and a plus sign. -/
def Number.layout : NumberLayout := ⟨16, 4, true⟩

/-- The text of a decimal in a layout. -/
def Decimal.chars (layout : NumberLayout) (x : Decimal) : List Char :=
  let ds := digitChars x.digits
  let point : Int := ds.length + x.exponent
  if x.digits = 0 then ['0', '.', '0']
  else if 0 ≤ x.exponent ∧ point ≤ layout.whole then
    ds ++ List.replicate x.exponent.toNat '0' ++ ['.', '0']
  else if 0 < point ∧ point ≤ layout.whole then
    ds.take point.toNat ++ '.' :: ds.drop point.toNat
  else if -(layout.noughts : Int) ≤ point ∧ point ≤ 0 then
    '0' :: '.' :: List.replicate (-point).toNat '0' ++ ds
  else
    let mantissa :=
      match ds with
      | [] => []
      | [d] => [d]
      | d :: rest => d :: '.' :: rest
    mantissa ++ 'e' :: (if layout.plus && 0 < point then ['+'] else []) ++ intChars (point - 1)

/-- The text of a number in a layout. -/
def Number.charsIn (layout : NumberLayout) : Number → List Char
  | .whole n => intChars n
  | .double negative name => (if negative then ['-'] else []) ++ name.chars layout

/-- The text of a number. -/
def Number.chars (n : Number) : List Char := n.charsIn Number.layout

namespace Json

/-- A hexadecimal digit. -/
def hexDigit (n : Nat) : Char := (Nat.digitChar n)

/-- One character of a quoted text. -/
def escapedChar (c : Char) : List Char :=
  if c = '\x22' then ['\\', '\x22']
  else if c = '\\' then ['\\', '\\']
  else if c = '\x08' then ['\\', 'b']
  else if c = '\t' then ['\\', 't']
  else if c = '\n' then ['\\', 'n']
  else if c = '\x0c' then ['\\', 'f']
  else if c = '\r' then ['\\', 'r']
  else if c.toNat < 0x20 then
    ['\\', 'u', '0', '0', hexDigit (c.toNat / 16), hexDigit (c.toNat % 16)]
  else [c]

/-- A text between quotes. -/
def quotedChars (s : String) : List Char :=
  '\x22' :: (s.toList.flatMap escapedChar ++ ['\x22'])

mutual

/-- The compact text of a value. -/
def compactChars : Json → List Char
  | null => ['n', 'u', 'l', 'l']
  | bool true => ['t', 'r', 'u', 'e']
  | bool false => ['f', 'a', 'l', 's', 'e']
  | num n => n.chars
  | str s => quotedChars s
  | arr items => '[' :: (compactItems items ++ [']'])
  | obj members => '\x7b' :: (compactMembers members ++ ['\x7d'])

/-- The compact texts of the items of a list, with commas between them. -/
def compactItems : List Json → List Char
  | [] => []
  | [v] => compactChars v
  | v :: w :: rest => compactChars v ++ ',' :: compactItems (w :: rest)

/-- The compact texts of members, with commas between them. -/
def compactMembers : List (String × Json) → List Char
  | [] => []
  | [(k, v)] => quotedChars k ++ ':' :: compactChars v
  | (k, v) :: m :: rest =>
    quotedChars k ++ ':' :: (compactChars v ++ ',' :: compactMembers (m :: rest))

end

/-- The compact text of a value. -/
def compact (v : Json) : String := String.ofList (compactChars v)

/-- A line feed and the indentation of a level. -/
def newline (level : Nat) : List Char := '\n' :: List.replicate (4 * level) ' '

mutual

/-- The indented text of a value that stands at a level.  Empty lists and objects stay closed. -/
def indentedChars (level : Nat) : Json → List Char
  | arr [] => ['[', ']']
  | arr (v :: rest) => '[' :: (indentedItems (level + 1) (v :: rest) ++ newline level ++ [']'])
  | obj [] => ['\x7b', '\x7d']
  | obj (m :: rest) =>
    '\x7b' :: (indentedMembers (level + 1) (m :: rest) ++ newline level ++ ['\x7d'])
  | null => compactChars null
  | bool b => compactChars (bool b)
  | num n => compactChars (num n)
  | str s => compactChars (str s)

/-- The items of a list, each on a line of its own. -/
def indentedItems (level : Nat) : List Json → List Char
  | [] => []
  | [v] => newline level ++ indentedChars level v
  | v :: w :: rest =>
    newline level ++ indentedChars level v ++ ',' :: indentedItems level (w :: rest)

/-- Members, each on a line of its own. -/
def indentedMembers (level : Nat) : List (String × Json) → List Char
  | [] => []
  | [(k, v)] => newline level ++ quotedChars k ++ ':' :: ' ' :: indentedChars level v
  | (k, v) :: m :: rest =>
    newline level ++ quotedChars k ++ ':' :: ' ' ::
      (indentedChars level v ++ ',' :: indentedMembers level (m :: rest))

end

/-- The indented text of a value. -/
def indented (v : Json) : String := String.ofList (indentedChars 0 v)

end Json
end LintSetup
