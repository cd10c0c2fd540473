import LintSetup.Glob.Basic

/-!
# Reading globs

In the text of a glob `?`, `*`, `[...]` and `{...,...}` are special, and a backslash takes the
special meaning from the character after it.  Two stars stand for any directories when they fill the
whole space between two slashes, between a slash and an end, or between a slash and the end of a
branch; anywhere else they are two single stars.

Reading keeps a stack of open braces.  Each of them has the branches that are closed, the branch
that is being read, and what stood before the brace.

* `readClass` --- what stands between square brackets;
* `Reader` --- where the reading stands;
* `Glob.parse?` --- the glob of a text.
-/

namespace LintSetup.Glob

open Text (Bytes)

/-- The bytes of a character. -/
def charBytes (c : Char) : Bytes := Text.encode (String.singleton c)

/-- The ranges of bytes that a range of characters stands for: its ends by their bytes, with the
range itself from the last byte of the one to the first byte of the other. -/
def byteRanges (low high : Char) : List (UInt8 × UInt8) :=
  if low = high then (charBytes low).map fun b => (b, b)
  else
    let ls := charBytes low
    let hs := charBytes high
    ls.dropLast.map (fun b => (b, b)) ++
      ((ls.getLast?.bind fun l => hs.head?.map fun h => (l, h)).toList) ++
      hs.tail.map (fun b => (b, b))

/-- Changes the last range of a class to end at a character, unless it would be reversed. -/
def extendLast (ranges : List (Char × Char)) (c : Char) : Option (List (Char × Char)) :=
  match ranges.getLast? with
  | some (low, _) => if c < low then none else some (ranges.dropLast ++ [(low, c)])
  | none => none

/-- Reads the ranges of a class up to its closing bracket.  A closing bracket or a minus sign that
comes first is a member, and so is a minus sign that comes last. -/
def readRanges (first inRange : Bool) (ranges : List (Char × Char)) :
    List Char → Option (List (Char × Char) × List Char)
  | [] => none
  | c :: cs =>
    if c = ']' && !first then some (if inRange then ranges ++ [('-', '-')] else ranges, cs)
    else if c = '-' && !first && !inRange then readRanges false true ranges cs
    else if inRange then
      match extendLast ranges c with
      | some ranges => readRanges false false ranges cs
      | none => none
    else readRanges false false (ranges ++ [(c, c)]) cs

/-- Reads a class after its opening bracket. -/
def readClass (cs : List Char) : Option (Part × List Char) :=
  let (negated, cs) :=
    match cs with
    | '!' :: rest => (true, rest)
    | '^' :: rest => (true, rest)
    | rest => (false, rest)
  (readRanges true false [] cs).map fun (ranges, rest) =>
    (.oneOf negated (ranges.flatMap fun (low, high) => byteRanges low high), rest)

/-- A brace that is open: the parts before it, and its closed branches. -/
structure OpenBrace where
  before : List Part
  branches : List (List Part)

/-- Where the reading stands: the open braces, innermost first, the parts of the branch that is
being read, and the character that was read last. -/
structure Reader where
  braces : List OpenBrace
  parts : List Part
  last : Option Char

namespace Reader

/-- The reader with one more part. -/
def push (r : Reader) (p : Part) (last : Char) : Reader :=
  { r with parts := r.parts ++ [p], last := some last }

/-- The reader with two single stars in place of a double star. -/
def pushStars (r : Reader) : Reader := (r.push .star '*').push .star '*'

/-- The reader in which any directories take the place of the part before them; next to other
directories at the same end they merge with them. -/
def replaceLast (r : Reader) (p : Part) (last : Char) : Reader :=
  let kept : Part :=
    match r.parts.getLast? with
    | some .dirsFirst => .dirsFirst
    | some .dirsBelow => .dirsBelow
    | _ => p
  { r with parts := r.parts.dropLast ++ [kept], last := some last }

/-- Whether a double star may stand for directories after what was read last: after a slash, or, in
braces, after a brace or a comma. -/
def mayStartDirectories (r : Reader) : Bool :=
  r.last == some '/' || (!r.braces.isEmpty && (r.last == some ',' || r.last == some '\x7b'))

/-- Reads what follows a double star that has something before it in its branch. -/
def doubleStar (r : Reader) (cs : List Char) : Reader × List Char :=
  if r.parts.isEmpty then
    match cs with
    | [] => (r.push .dirsFirst '*', [])
    | '/' :: rest => (r.push .dirsFirst '/', rest)
    | _ => (r.pushStars, cs)
  else if r.mayStartDirectories then
    match cs with
    | [] => (r.replaceLast .dirsBelow '*', [])
    | '/' :: rest => (r.replaceLast .dirsBetween '/', rest)
    | c :: _ =>
      if !r.braces.isEmpty && (c = ',' || c = '\x7d') then (r.replaceLast .dirsBelow '*', cs)
      else (r.pushStars, cs)
  else (r.pushStars, cs)

/-- The reader after a brace opens. -/
def openBrace (r : Reader) : Reader := ⟨⟨r.parts, []⟩ :: r.braces, [], some '\x7b'⟩

/-- The reader after a comma: in braces a branch ends, elsewhere a comma is itself. -/
def comma (r : Reader) : Reader :=
  match r.braces with
  | [] => r.push (.literal (charBytes ',')) ','
  | b :: rest => ⟨{ b with branches := b.branches ++ [r.parts] } :: rest, [], some ','⟩

/-- The reader after a brace closes, unless none is open. -/
def closeBrace (r : Reader) : Option Reader :=
  match r.braces with
  | [] => none
  | b :: rest => some ⟨rest, b.before ++ [.choice (b.branches ++ [r.parts])], some '\x7d'⟩

end Reader

/-- Reads a glob from a state of the reading; `fuel` bounds the number of characters. -/
def read : Nat → Reader → List Char → Option Reader
  | _, r, [] => some r
  | 0, _, _ :: _ => none
  | fuel + 1, r, c :: cs =>
    if c = '?' then read fuel (r.push .anyByte c) cs
    else if c = '*' then
      match cs with
      | '*' :: cs =>
        let (r, cs) := r.doubleStar cs
        read fuel r cs
      | _ => read fuel (r.push .star c) cs
    else if c = '[' then do
      let (p, cs) ← readClass cs
      read fuel (r.push p ']') cs
    else if c = '\x7b' then read fuel r.openBrace cs
    else if c = '\x7d' then do
      let r ← r.closeBrace
      read fuel r cs
    else if c = ',' then read fuel r.comma cs
    else if c = '\\' then
      match cs with
      | [] => none
      | e :: cs => read fuel (r.push (.literal (charBytes e)) e) cs
    else read fuel (r.push (.literal (charBytes c)) c) cs

/-- The glob of a text.  Brackets and braces have to be closed, a range must not be reversed, and a
backslash must not come last. -/
def parse? (s : String) : Option Glob :=
  let cs := s.toList
  match read cs.length ⟨[], [], none⟩ cs with
  | some ⟨[], parts, _⟩ => some ⟨parts⟩
  | _ => none

end LintSetup.Glob
