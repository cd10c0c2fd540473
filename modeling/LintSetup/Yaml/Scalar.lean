import LintSetup.Json.Text
import LintSetup.Yaml.Reading

/-!
# Scalars of a block document

A text can be written in four styles.  It is plain if that reads as the same text; between single
quotes if only its look forbids the plain style; as a literal block if it has line feeds; and
between double quotes, with escapes, if anything in it would not survive the other styles.

* `Traits` --- what about a text matters to the choice, and `Traits.of`, which looks it up;
* `Style`, `styleOf` --- the choice;
* `scalarChars` --- the text of a scalar; lines of it after the first one are indented.
-/

namespace LintSetup.Yaml

/-- Whether a character ends a line. -/
def isBreak (c : Char) : Bool :=
  c == '\n' || c == '\r' || c.toNat == 0x85 || c.toNat == 0x2028 || c.toNat == 0x2029

/-- Whether a character is a space, a tab, the end of a line or NUL. -/
def isGap (c : Char) : Bool := c == ' ' || c == '\t' || c == '\x00' || isBreak c

/-- Whether a character is written as it is.  Controls are not, except for the line feed, and
neither are the byte order mark and the two code points that are no characters. -/
def isPrintable (c : Char) : Bool :=
  let n := c.toNat
  n == 0x0A || (0x20 ≤ n && n ≤ 0x7E) ||
    (0xA0 ≤ n && n != 0xFEFF && n != 0xFFFE && n != 0xFFFF)

/-- The characters that mean something at the start of a plain scalar. -/
def indicators : List Char :=
  ['#', ',', '[', ']', '\x7b', '\x7d', '&', '*', '!', '|', '>', '\x27', '\x22', '%', '@', '\x60']

/-- Whether a text that begins at the start of a scalar has the look of something else: of a mark
between documents, of an indicator, or of the mark of an item, a key or a value. -/
def startsLikeMarkup (cs : List Char) : Bool :=
  cs.take 3 == ['-', '-', '-'] || cs.take 3 == ['.', '.', '.'] ||
    match cs with
    | [] => false
    | c :: rest =>
      indicators.contains c || ((c == '?' || c == ':' || c == '-') && (rest.head?.map isGap).getD true)

/-- Whether a colon before a gap, or a hash after one, stands in a text; `before` says whether a gap
stands in front of it. -/
def holdsMarkup (before : Bool) : List Char → Bool
  | [] => false
  | c :: rest =>
    (c == ':' && (rest.head?.map isGap).getD true) || (c == '#' && before) ||
      holdsMarkup (isGap c) rest

/-- Whether a character of one class is followed directly by one of another. -/
def hasPair (first second : Char → Bool) : List Char → Bool
  | c :: d :: rest => (first c && second d) || hasPair first second (d :: rest)
  | _ => false

/-- What about a text matters to the choice of its style. -/
structure Traits where
  /-- It has the look of markup. -/
  markup : Bool
  /-- It starts or ends with a space or the end of a line. -/
  edges : Bool
  /-- It ends with a space. -/
  trailingSpace : Bool
  /-- It has a line break. -/
  breaks : Bool
  /-- A space follows a line break. -/
  breakSpace : Bool
  /-- A line break follows a space, or a character does not print. -/
  special : Bool

/-- Whether a character is a space or ends a line. -/
def isEdge (c : Char) : Bool := c == ' ' || isBreak c

/-- The traits of a text. -/
def Traits.of (cs : List Char) : Traits :=
  { markup := startsLikeMarkup cs || holdsMarkup ((cs.head?.map isGap).getD false) (cs.drop 1)
    edges := (cs.head?.map isEdge).getD false || (cs.getLast?.map isEdge).getD false
    trailingSpace := cs.getLast? == some ' '
    breaks := cs.any isBreak
    breakSpace := hasPair isBreak (· == ' ') cs
    special := cs.any (!isPrintable ·) || hasPair (· == ' ') isBreak cs }

/-- The styles of a scalar. -/
inductive Style where
  | plain
  | singleQuoted
  | doubleQuoted
  | literal
  deriving DecidableEq, Repr

/-- The style of a text. -/
def styleOf (s : String) : Style :=
  let cs := s.toList
  let t := Traits.of cs
  if cs.contains '\n' then
    if t.trailingSpace || t.special then .doubleQuoted else .literal
  else if isText s && !(t.markup || t.edges || t.breaks || t.special) then .plain
  else if t.breakSpace || t.special then .doubleQuoted
  else .singleQuoted

/-- Spaces. -/
def spaces (n : Nat) : List Char := List.replicate n ' '

/-- The last `width` hexadecimal digits of a number, in upper case. -/
def hexChars (width n : Nat) : List Char :=
  let ds := (Nat.toDigits 16 n).map Char.toUpper
  List.replicate (width - ds.length) '0' ++ ds

/-- A character between double quotes. -/
def escapedChar (c : Char) : List Char :=
  let n := c.toNat
  if c == '\x22' || c == '\\' then ['\\', c]
  else if isPrintable c && !isBreak c then [c]
  else if n == 0x00 then ['\\', '0']
  else if n == 0x07 then ['\\', 'a']
  else if n == 0x08 then ['\\', 'b']
  else if n == 0x09 then ['\\', 't']
  else if n == 0x0A then ['\\', 'n']
  else if n == 0x0B then ['\\', 'v']
  else if n == 0x0C then ['\\', 'f']
  else if n == 0x0D then ['\\', 'r']
  else if n == 0x1B then ['\\', 'e']
  else if n == 0x85 then ['\\', 'N']
  else if n == 0x2028 then ['\\', 'L']
  else if n == 0x2029 then ['\\', 'P']
  else if n ≤ 0xFF then '\\' :: 'x' :: hexChars 2 n
  else if n ≤ 0xFFFF then '\\' :: 'u' :: hexChars 4 n
  else '\\' :: 'U' :: hexChars 8 n

/-- A text between double quotes. -/
def doubleQuotedChars (cs : List Char) : List Char :=
  '\x22' :: cs.flatMap escapedChar ++ ['\x22']

/-- A character between single quotes. -/
def doubledQuote (c : Char) : List Char := if c == '\x27' then [c, c] else [c]

/-- The characters of a text that has line breaks; what follows a break is indented.  `fresh` says
whether a break comes right before. -/
def indentedLines (indent : Nat) (each : Char → List Char) (fresh : Bool) : List Char → List Char
  | [] => []
  | c :: rest =>
    if isBreak c then c :: indentedLines indent each true rest
    else (if fresh then spaces indent else []) ++ each c ++ indentedLines indent each false rest

/-- A text between single quotes.  A quote that stands after a line break is indented too. -/
def singleQuotedChars (indent : Nat) (cs : List Char) : List Char :=
  '\x27' :: indentedLines indent doubledQuote false cs ++
    (if (cs.getLast?.map isBreak).getD false then spaces indent else []) ++ ['\x27']

/-- What a literal block says about its line breaks at the end: none, one, or all of them kept. -/
def chomping (cs : List Char) : List Char :=
  match cs.reverse with
  | last :: rest =>
    if !isBreak last then ['-'] else if (rest.head?.map isBreak).getD true then ['+'] else []
  | [] => ['-']

/-- A literal block.  The indentation is stated if the text itself starts with a space or a break.
-/
def literalChars (indent : Nat) (cs : List Char) : List Char :=
  '|' :: (if (cs.head?.map isEdge).getD false then ['2'] else []) ++ chomping cs ++
    '\n' :: indentedLines indent (fun c => [c]) true cs

/-- The text of a scalar whose further lines have an indentation. -/
def scalarChars (indent : Nat) (s : String) : List Char :=
  match styleOf s with
  | .plain => s.toList
  | .singleQuoted => singleQuotedChars indent s.toList
  | .doubleQuoted => doubleQuotedChars s.toList
  | .literal => literalChars indent s.toList

end LintSetup.Yaml
