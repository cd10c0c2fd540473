import LintSetup.Members
import LintSetup.Script.Parse
import LintSetup.Text.Digits

/-!
# What words stand for

Before a command runs, the parts of its words that stand for something else are replaced: by the
value of a variable, by a part of it, or by a sum.  What comes of a part that was not quoted is cut
into fields at its blanks, and serves as a pattern where a pattern is expected.

* `Scope` --- the variables and arguments of a script;
* `matchesPattern` --- whether a text fits a pattern;
* `expand`, `fields` --- what a word stands for, as one text and as fields.
-/

namespace LintSetup.Script

open Text (isDigit digitValue)

/-- The variables and arguments of a script, and the status of the last command. -/
structure Scope where
  bindings : Members Str := []
  args : List Str := []
  name : Str := []
  status : Nat := 0

/-- The number that stands for the process of a script. -/
def ownProcess : Str := ['1']

/-- A number as a text. -/
def shown (n : Int) : Str := (ToString.toString n).toList

/-- The number that a text is. -/
def number? (s : Str) : Option Int :=
  match s with
  | '-' :: ds => (Text.digitsValue? 10 ds).map fun n => -(n : Int)
  | ds => (Text.digitsValue? 10 ds).map Int.ofNat

/-- The value of a variable; one that has none is empty. -/
def Scope.value (s : Scope) (name : Str) : Str :=
  match name with
  | ['#'] => shown s.args.length
  | ['?'] => shown s.status
  | ['$'] => ownProcess
  | ['0'] => s.name
  | ['@'] => [' '].intercalate s.args
  | ['*'] => [' '].intercalate s.args
  | _ =>
    match Text.digitsValue? 10 name with
    | some n => s.args.getD (n - 1) []
    | none => (Members.get? s.bindings (String.ofList name)).getD []

/-- The scope in which a variable has a value. -/
def Scope.assign (s : Scope) (name value : Str) : Scope :=
  { s with bindings := Members.set s.bindings (String.ofList name) value }

/-- A text without the spaces at its start. -/
def unspaced (cs : Str) : Str := cs.dropWhile (· == ' ')

mutual

/-- The value of the sum at the start of a text, and the rest. -/
def sum (s : Scope) : Nat → Str → Int × Str
  | 0, cs => (0, cs)
  | fuel + 1, cs =>
    let (value, rest) := product s fuel cs
    sumFrom s fuel value rest

/-- The value of a sum after its first product. -/
def sumFrom (s : Scope) : Nat → Int → Str → Int × Str
  | 0, value, cs => (value, cs)
  | fuel + 1, value, cs =>
    match unspaced cs with
    | '+' :: rest =>
      let (next, rest) := product s fuel rest
      sumFrom s fuel (value + next) rest
    | '-' :: rest =>
      let (next, rest) := product s fuel rest
      sumFrom s fuel (value - next) rest
    | rest => (value, rest)

/-- The value of a product, and the rest. -/
def product (s : Scope) : Nat → Str → Int × Str
  | 0, cs => (0, cs)
  | fuel + 1, cs =>
    let (value, rest) := factor s fuel cs
    productFrom s fuel value rest

/-- The value of a product after its first factor. -/
def productFrom (s : Scope) : Nat → Int → Str → Int × Str
  | 0, value, cs => (value, cs)
  | fuel + 1, value, cs =>
    match unspaced cs with
    | '*' :: rest =>
      let (next, rest) := factor s fuel rest
      productFrom s fuel (value * next) rest
    | rest => (value, rest)

/-- The value of a factor: a number, a variable, or a sum in brackets. -/
def factor (s : Scope) : Nat → Str → Int × Str
  | 0, cs => (0, cs)
  | fuel + 1, cs =>
    match unspaced cs with
    | '(' :: rest =>
      let (value, rest) := sum s fuel rest
      (value, (unspaced rest).drop 1)
    | '$' :: rest => factor s fuel rest
    | '-' :: rest =>
      let (value, rest) := factor s fuel rest
      (-value, rest)
    | rest =>
      let word := rest.takeWhile isNameChar
      let text := if word.all isDigit then word else s.value word
      ((number? text).getD 0, rest.drop word.length)

end

/-- A text with a mark at every character: whether it was quoted. -/
abbrev Marked := List (Char × Bool)

/-- The characters that a class in square brackets lists, and the rest after it. -/
def readClass : Nat → Marked → Option (List (Char × Char) × Marked)
  | 0, _ => none
  | _ + 1, [] => none
  | _ + 1, (']', false) :: rest => some ([], rest)
  | fuel + 1, (low, _) :: ('-', false) :: (high, mark) :: rest =>
    if high = ']' && !mark then
      (readClass fuel (('-', true) :: (high, mark) :: rest)).map fun (found, rest) =>
        ((low, low) :: found, rest)
    else (readClass fuel rest).map fun (found, rest) => ((low, high) :: found, rest)
  | fuel + 1, (one, _) :: rest =>
    (readClass fuel rest).map fun (found, rest) => ((one, one) :: found, rest)

/-- Whether a text fits a pattern, with as many steps as the two have characters. -/
def fits : Nat → Marked → Str → Bool
  | 0, p, s => p.isEmpty && s.isEmpty
  | fuel + 1, p, s =>
    match p, s with
    | [], s => s.isEmpty
    | ('*', false) :: rest, [] => fits fuel rest []
    | ('*', false) :: rest, c :: s => fits fuel rest (c :: s) || fits fuel (('*', false) :: rest) s
    | _ :: _, [] => false
    | ('?', false) :: rest, _ :: s => fits fuel rest s
    | ('[', false) :: rest, c :: s =>
      let negative := rest.head? == some ('!', false)
      match readClass (rest.length + 1) (if negative then rest.drop 1 else rest) with
      | some (ranges, rest) =>
        (ranges.any fun (low, high) => low ≤ c && c ≤ high) != negative && fits fuel rest s
      | none => c == '[' && fits fuel rest s
    | (d, _) :: rest, c :: s => c == d && fits fuel rest s

/-- Whether a text fits a pattern: a star is any text, a question mark any character, a class one of
its characters, and what was quoted is itself. -/
def matchesPattern (p : Marked) (s : Str) : Bool := fits (p.length + s.length + 1) p s

/-- A text without the shortest or the longest part at its front or back that fits a pattern. -/
def trim (front longest : Bool) (p : Marked) (s : Str) : Str :=
  let sizes := List.range (s.length + 1)
  let hit := (if longest then sizes.reverse else sizes).find? fun n =>
    matchesPattern p (if front then s.take n else s.drop (s.length - n))
  match hit with
  | some n => if front then s.drop n else s.take (s.length - n)
  | none => s

/-- A text all of which is quoted, or none of it. -/
def marked (quoted : Bool) (s : Str) : Marked := s.map (·, quoted)

mutual

/-- What a piece of a word stands for. -/
def expandPiece (s : Scope) : Piece → Marked
  | .plain text quoted => marked quoted text
  | .variable name quoted => marked quoted (s.value name)
  | .length name => marked true (shown (s.value name).length)
  | .trimmed name front longest pattern quoted =>
    marked quoted (trim front longest (expandPieces s pattern) (s.value name))
  | .orElse name unlessEmpty other quoted =>
    let value := s.value name
    let known := Members.has s.bindings (String.ofList name) || !value.isEmpty
    if known && !(unlessEmpty && value.isEmpty) then marked quoted value else expandPieces s other
  | .arithmetic text quoted => marked quoted (shown (sum s (4 * text.length + 4) text).1)

/-- What the pieces of a word stand for. -/
def expandPieces (s : Scope) : List Piece → Marked
  | [] => []
  | p :: rest => expandPiece s p ++ expandPieces s rest

end

/-- What a word stands for, as one text. -/
def expand (s : Scope) (w : Word) : Str := (expandPieces s w).map (·.1)

/-- Whether what a piece stands for is cut into fields. -/
def isCut : Piece → Bool
  | .variable _ quoted => !quoted
  | .trimmed _ _ _ _ quoted => !quoted
  | .orElse _ _ _ quoted => !quoted
  | _ => false

/-- What a piece stands for, with a mark at the characters at which it is not cut. -/
def expandCut (s : Scope) (p : Piece) : Marked :=
  (expandPiece s p).map fun (c, quoted) => (c, quoted || !isCut p)

/-- Whether a character separates fields. -/
def isSeparator (x : Char × Bool) : Bool := !x.2 && (x.1 == ' ' || x.1 == '\t' || x.1 == '\n')

/-- The fields of a text: its maximal parts without separators; `run` is the one being read,
backwards. -/
def cutFields (run : Str) : Marked → List Str
  | [] => if run.isEmpty then [] else [run.reverse]
  | x :: rest =>
    if isSeparator x then
      if run.isEmpty then cutFields [] rest else run.reverse :: cutFields [] rest
    else cutFields (x.1 :: run) rest

/-- The fields that a word becomes.  A word without a part that is cut is one field, and the word
for all arguments becomes these. -/
def fields (s : Scope) (w : Word) : List Str :=
  match w with
  | [.plain [] true, .variable ['@'] true] => s.args
  | _ => if w.any isCut then cutFields [] (w.flatMap (expandCut s)) else [expand s w]

end LintSetup.Script
