import LintSetup.Decimal.Binary
import LintSetup.Text.Digits

/-!
# What a plain scalar reads as

A scalar without quotes need not be a text: some words are read as nothing, as a truth value or as a
number.  A text that looks like one of them has to be quoted.

* `isNull`, `isTruth` --- the words for nothing and for truth values;
* `isInteger` --- whole numbers, in decimal, hexadecimal, octal or binary form, of at most 128 bits;
* `isFloat` --- numbers with a point or an exponent that are within the range of doubles, and the
  words for infinity and for no number;
* `isPadded` --- decimal digits with a nought in front, which readers disagree about;
* `isText` --- whether a plain scalar reads as the text that it is.
-/

namespace LintSetup.Yaml

open Text (isDigit digitsValue?)

/-- Whether a text is one of the words for nothing. -/
def isNull (s : String) : Bool := ["", "null", "Null", "NULL", "~"].contains s

/-- Whether a text is one of the words for a truth value. -/
def isTruth (s : String) : Bool := ["true", "True", "TRUE", "false", "False", "FALSE"].contains s

/-- A whole number without a sign, of a base that its first two characters tell. -/
def magnitude? : List Char → Option Nat
  | '0' :: 'x' :: rest => digitsValue? 16 rest
  | '0' :: 'o' :: rest => digitsValue? 8 rest
  | '0' :: 'b' :: rest => digitsValue? 2 rest
  | cs => digitsValue? 10 cs

/-- A text without a sign in front. -/
def unsigned : List Char → List Char
  | '+' :: rest => rest
  | '-' :: rest => rest
  | cs => cs

/-- Whether a text is decimal digits with a nought in front of them, after a sign or not. -/
def isPadded (cs : List Char) : Bool :=
  match unsigned cs with
  | '0' :: d :: rest => (d :: rest).all isDigit
  | _ => false

/-- Whether a text is a whole number of at most 128 bits, the sign included. -/
def isInteger (cs : List Char) : Bool :=
  !isPadded cs &&
    match cs with
    | '-' :: rest => (magnitude? rest).any (· ≤ Nat.pow 2 127)
    | '+' :: rest => (magnitude? rest).any (· < Nat.pow 2 128)
    | cs => (magnitude? cs).any (· < Nat.pow 2 128)

/-- The exponent that ends a number; a number may also have none. -/
def exponent? : List Char → Option Int
  | [] => some 0
  | e :: rest =>
    if e = 'e' ∨ e = 'E' then
      match rest with
      | '-' :: ds => (digitsValue? 10 ds).map fun n => -(n : Int)
      | ds => (digitsValue? 10 (if ds.head? = some '+' then ds.drop 1 else ds)).map Int.ofNat
    else none

/-- Whether a text without a sign is a decimal number within the range of doubles: digits, a point
among them or at either end, and an exponent. -/
def isDecimal (cs : List Char) : Bool :=
  let whole := cs.takeWhile isDigit
  let afterWhole := cs.dropWhile isDigit
  let (fraction, rest) :=
    match afterWhole with
    | '.' :: rest => (rest.takeWhile isDigit, rest.dropWhile isDigit)
    | rest => ([], rest)
  match digitsValue? 10 (whole ++ fraction), exponent? rest with
  | some n, some e => Decimal.isFinite n (e - fraction.length)
  | _, _ => false

/-- Whether a text is a number with a point or an exponent, infinity, or no number. -/
def isFloat (cs : List Char) : Bool :=
  let s := String.ofList cs
  let body := String.ofList (unsigned cs)
  [".inf", ".Inf", ".INF"].contains body || [".nan", ".NaN", ".NAN"].contains s ||
    (!isPadded cs && isDecimal (unsigned cs))

/-- Whether a plain scalar reads as the text that it is, and by every reader. -/
def isText (s : String) : Bool :=
  !(isNull s || isTruth s || isInteger s.toList || isFloat s.toList || isPadded s.toList)

end LintSetup.Yaml
