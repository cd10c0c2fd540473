import LintSetup.Json.Parse
import LintSetup.Text.Blank
import LintSetup.Text.Digits
import LintSetup.Version.Range

/-!
# Reading ranges

The text of a range has alternatives between `||`, and each of them has comparators between blanks.
A comparator is a pair of versions around a minus sign, a version after a sign of comparison, a
version with parts left out, or a version after a tilde or a caret.  What is none of these up to the
next blank is passed over.

The comparators of an alternative narrow each other down.  When one has nothing in common with the
one before it, both stand side by side.

* `Partial` --- a version with parts left out;
* `simple` --- the interval of one comparator;
* `Range.parse?` --- the range of a text; a text without any interval is no range, nor is one with
  a number beyond `maxNumber`.
-/

namespace LintSetup

open Text (isDigit)

namespace Range

/-- The largest number that a text may hold anywhere. -/
def maxNumber : Nat := 9007199254740991

/-- The largest number that a part of a version may be. -/
def maxPart : Nat := 900719925474099

/-- A version with parts left out. -/
structure Partial where
  major : Option Nat
  minor : Option Nat
  patch : Option Nat
  prerelease : List Identifier
  deriving Repr

namespace Partial

/-- The version in which the parts that were left out are nought. -/
def version (p : Partial) : Version :=
  ⟨p.major.getD 0, p.minor.getD 0, p.patch.getD 0, p.prerelease⟩

end Partial

/-- A blank between comparators. -/
def isGap (c : Char) : Bool := c = ' ' || c = '\t'

/-- A text without the gap at its start. -/
def skipGap (cs : List Char) : List Char := cs.dropWhile isGap

/-- Whether a comparator may end here. -/
def atEnd : List Char → Bool
  | [] => true
  | '|' :: '|' :: _ => true
  | c :: _ => isGap c

/-- Reads a part of a version: a number, or a sign that it is left out. -/
def readPart : List Char → Option (Option Nat × List Char)
  | [] => none
  | c :: cs =>
    if c = 'x' || c = 'X' || c = '*' then some (none, cs)
    else
      let ds := (c :: cs).takeWhile isDigit
      if ds.isEmpty then none
      else
        let n := Number.valueOf ds
        if n ≤ maxPart then some (some n, (c :: cs).dropWhile isDigit) else none

/-- Reads a part after a point, if there is one. -/
def readNextPart (cs : List Char) : Option (Option Nat) × List Char :=
  match cs with
  | '.' :: rest =>
    match readPart rest with
    | some (part, rest) => (some part, rest)
    | none => (none, cs)
  | _ => (none, cs)

/-- Whether a character may stand in a part of a prerelease.  Characters count by the last eight
bits of their code point. -/
def isIdentifierChar (c : Char) : Bool :=
  let n := c.toNat % 256
  c = '-' || (48 ≤ n && n ≤ 57) || (65 ≤ n && n ≤ 90) || (97 ≤ n && n ≤ 122)

/-- The part of a prerelease that a word stands for: a number if it is one of 64 bits. -/
def identifierOf (word : List Char) : Identifier :=
  if word.all isDigit && Number.valueOf word < Nat.pow 2 64 then .number (Number.valueOf word)
  else .word (String.ofList word)

/-- Reads one part of a prerelease or a build. -/
def readIdentifier (cs : List Char) : Option (Identifier × List Char) :=
  let word := cs.takeWhile isIdentifierChar
  if word.isEmpty then none else some (identifierOf word, cs.dropWhile isIdentifierChar)

/-- Reads further parts, each after a point; `fuel` bounds their number. -/
def readIdentifiers : Nat → List Char → List Identifier × List Char
  | 0, cs => ([], cs)
  | fuel + 1, cs =>
    match cs with
    | '.' :: rest =>
      match readIdentifier rest with
      | some (i, rest) =>
        let (more, rest) := readIdentifiers fuel rest
        (i :: more, rest)
      | none => ([], cs)
    | _ => ([], cs)

/-- Reads parts between points. -/
def readDotted (cs : List Char) : Option (List Identifier × List Char) :=
  (readIdentifier cs).map fun (i, rest) =>
    let (more, rest) := readIdentifiers rest.length rest
    (i :: more, rest)

/-- Reads a prerelease, for which a minus sign may stand first. -/
def readPrerelease (cs : List Char) : List Identifier × List Char :=
  let body :=
    match cs with
    | '-' :: rest => rest
    | _ => cs
  (readDotted body).getD ([], cs)

/-- A text without the build at its start. -/
def skipBuild (cs : List Char) : List Char :=
  match cs with
  | '+' :: rest => ((readDotted rest).map (·.2)).getD cs
  | _ => cs

/-- Reads a version with parts left out.  A prerelease may follow the third part. -/
def readPartial (cs : List Char) : Option (Partial × List Char) :=
  let cs :=
    match cs with
    | 'v' :: rest => rest
    | _ => cs
  (readPart (skipGap cs)).map fun (major, cs) =>
    let (minor, cs) := readNextPart cs
    let (patch, cs) := readNextPart cs
    match patch with
    | none => (⟨major, minor.join, none, []⟩, cs)
    | some patch =>
      let (prerelease, cs) := readPrerelease cs
      (⟨major, minor.join, patch, prerelease⟩, skipBuild cs)

/-- The versions from a closed lower end on. -/
def atLeast (v : Version) : Option Interval := Interval.between? (.closesLower v) .above

/-- The versions from a closed lower end up to the first prerelease of a version. -/
def upTo (v : Version) (major minor patch : Nat) : Option Interval :=
  Interval.between? (.closesLower v) (.opensUpper (Version.first major minor patch))

/-- The versions before an end. -/
def before (upper : Bound) : Option Interval := Interval.between? .below upper

/-- The interval of a version with parts left out. -/
def partialInterval (p : Partial) : Option Interval :=
  match p.major, p.minor, p.patch with
  | none, _, _ => atLeast ⟨0, 0, 0, []⟩
  | some major, none, _ => upTo ⟨major, 0, 0, []⟩ (major + 1) 0 0
  | some major, some minor, none => upTo ⟨major, minor, 0, []⟩ major (minor + 1) 0
  | some _, some _, some _ => Interval.between? (.closesLower p.version) (.closesUpper p.version)

/-- The signs of comparison. -/
inductive Comparison where
  | atLeast
  | greater
  | equal
  | atMost
  | less
  deriving DecidableEq, Repr

/-- Reads a sign of comparison. -/
def readComparison : List Char → Option (Comparison × List Char)
  | '>' :: '=' :: rest => some (.atLeast, rest)
  | '>' :: rest => some (.greater, rest)
  | '=' :: rest => some (.equal, rest)
  | '<' :: '=' :: rest => some (.atMost, rest)
  | '<' :: rest => some (.less, rest)
  | _ => none

/-- The interval of a comparison. -/
def comparisonInterval (c : Comparison) (p : Partial) : Option Interval :=
  match c with
  | .atLeast => atLeast p.version
  | .greater =>
    match p.major, p.minor, p.patch with
    | some major, some minor, none => atLeast ⟨major, minor + 1, 0, []⟩
    | some major, none, none => atLeast ⟨major + 1, 0, 0, []⟩
    | _, _, _ => Interval.between? (.opensLower p.version) .above
  | .equal =>
    match p.major with
    | none => none
    | some _ => partialInterval p
  | .atMost =>
    match p.minor, p.patch with
    | none, none => before (.closesUpper ⟨p.major.getD 0, maxPart, maxPart, []⟩)
    | some minor, none => before (.closesUpper ⟨p.major.getD 0, minor, maxPart, []⟩)
    | _, some _ => before (.closesUpper p.version)
  | .less =>
    match p.major, p.minor, p.patch with
    | some major, some minor, none => before (.opensUpper (Version.first major minor 0))
    | _, _, _ => before (.opensUpper p.version)

/-- The interval of a version after a tilde, which an angle may follow. -/
def tildeInterval (angle : Bool) (p : Partial) : Option Interval :=
  match p.major, p.minor, p.patch with
  | none, _, _ => none
  | some major, none, _ => upTo ⟨major, 0, 0, []⟩ (major + 1) 0 0
  | some major, some minor, none =>
    upTo ⟨major, minor, 0, if angle then p.prerelease else []⟩ major (minor + 1) 0
  | some major, some minor, some patch =>
    upTo ⟨major, minor, patch, p.prerelease⟩ major (minor + 1) 0

/-- The interval of a version after a caret: the first number that is not nought stays. -/
def caretInterval (p : Partial) : Option Interval :=
  match p.major, p.minor, p.patch with
  | some 0, none, none => before (.opensUpper (Version.first 1 0 0))
  | some 0, some minor, none => upTo ⟨0, minor, 0, []⟩ 0 (minor + 1) 0
  | some major, none, none => upTo ⟨major, 0, 0, []⟩ (major + 1) 0 0
  | some major, some minor, none => upTo ⟨major, minor, 0, []⟩ (major + 1) 0 0
  | some 0, some 0, some patch => upTo p.version 0 0 (patch + 1)
  | some 0, some minor, some _ => upTo p.version 0 (minor + 1) 0
  | some major, some _, some _ => upTo p.version (major + 1) 0 0
  | _, _, _ => none

/-- The upper end of a pair of versions. -/
def hyphenUpper (p : Partial) : Bound :=
  match p.major, p.minor, p.patch with
  | none, none, none => .opensUpper (Version.first 0 0 0)
  | some major, none, none => .opensUpper (Version.first (major + 1) 0 0)
  | some major, some minor, none => .opensUpper (Version.first major (minor + 1) 0)
  | _, _, _ => .closesUpper p.version

/-- Reads a pair of versions around a minus sign, of which the first may be missing. -/
def readHyphen (cs : List Char) : Option (Option Interval × List Char) :=
  let (lower, cs) :=
    match readPartial cs with
    | some (p, rest) => (Bound.closesLower p.version, rest)
    | none => (Bound.below, cs)
  if (cs.head?.map isGap).getD false then
    match skipGap cs with
    | '-' :: cs =>
      if (cs.head?.map isGap).getD false then
        (readPartial (skipGap cs)).map fun (p, rest) =>
          (Interval.between? lower (hyphenUpper p), rest)
      else none
    | _ => none
  else none

/-- Reads a version after a sign of comparison. -/
def readCompared (cs : List Char) : Option (Option Interval × List Char) := do
  let (c, cs) ← readComparison cs
  let (p, rest) ← readPartial (skipGap cs)
  return (comparisonInterval c p, rest)

/-- Reads a version without any sign. -/
def readPlain (cs : List Char) : Option (Option Interval × List Char) :=
  (readPartial cs).map fun (p, rest) => (partialInterval p, rest)

/-- Reads a version after a tilde. -/
def readTilde : List Char → Option (Option Interval × List Char)
  | '~' :: cs =>
    let (angle, cs) :=
      match skipGap cs with
      | '>' :: rest => (true, rest)
      | rest => (false, rest)
    (readPartial (skipGap cs)).map fun (p, rest) => (tildeInterval angle p, rest)
  | _ => none

/-- Reads a version after a caret. -/
def readCaret : List Char → Option (Option Interval × List Char)
  | '^' :: cs => (readPartial (skipGap cs)).map fun (p, rest) => (caretInterval p, rest)
  | _ => none

/-- A text from the next place on where a comparator may end. -/
def skipToEnd : List Char → List Char
  | [] => []
  | c :: cs => if atEnd (c :: cs) then c :: cs else skipToEnd cs

/-- Reads a comparator.  What is none is passed over and gives no interval. -/
def readSimple (cs : List Char) : Option Interval × List Char :=
  match [readHyphen, readCompared, readPlain, readTilde, readCaret].findSome? fun read =>
      (read cs).filter fun (_, rest) => atEnd rest with
  | some result => result
  | none => (none, skipToEnd cs)

/-- The intervals of an alternative with one more: it narrows the last one down, or stands beside
it. -/
def narrow (intervals : List Interval) (i : Interval) : List Interval :=
  match intervals.getLast? with
  | none => [i]
  | some last =>
    match last.meet? i with
    | some met => intervals.dropLast ++ [met]
    | none => intervals ++ [i]

/-- Reads comparators up to the end of an alternative; `fuel` bounds their number. -/
def readAlternative : Nat → List Interval → List Char → List Interval × List Char
  | 0, intervals, cs => (intervals, cs)
  | fuel + 1, intervals, cs =>
    let (i, rest) := readSimple cs
    let intervals := (i.map (narrow intervals)).getD intervals
    if (rest.head?.map isGap).getD false then readAlternative fuel intervals (skipGap rest)
    else (intervals, rest)

/-- Reads alternatives; `fuel` bounds their number. -/
def readAlternatives : Nat → List Char → List Interval
  | 0, _ => []
  | fuel + 1, cs =>
    let (intervals, rest) := readAlternative (cs.length + 1) [] cs
    match skipGap rest with
    | '|' :: '|' :: rest => intervals ++ readAlternatives fuel (skipGap rest)
    | _ => intervals

/-- Whether all numbers of a text are small enough.  A number in another script is not. -/
def hasSmallNumbers (cs : List Char) : Bool :=
  (Text.runs (!Text.isAnyDigit ·) [] cs).all fun ds =>
    ds.all isDigit && Number.valueOf ds ≤ maxNumber

/-- Whether a text says nothing but that there are alternatives. -/
def isVoid : List Char → Bool
  | '|' :: '|' :: rest => isVoid rest
  | c :: rest => Text.isBlank c && isVoid rest
  | [] => true

/-- The range of a text. -/
def parse? (s : String) : Option Range :=
  let cs := (Text.trim s).toList
  if !hasSmallNumbers cs then none
  else if isVoid cs then some ⟨[Interval.all]⟩
  else
    let intervals := readAlternatives (cs.length + 1) cs
    if intervals.isEmpty then none else some ⟨intervals⟩

/-- Whether a text is a range. -/
def isValid (s : String) : Bool := (parse? s).isSome

/-- Whether two texts are ranges that have a version in common. -/
def textsIntersect (a b : String) : Bool :=
  match parse? a, parse? b with
  | some a, some b => a.intersects b
  | _, _ => false

end Range
end LintSetup
