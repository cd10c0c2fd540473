import LintSetup.Text.Utf8

/-!
# Globs

A glob is a sequence of parts that a path is matched against, byte by byte and as a whole.  A slash
is only matched by a slash, by a class, and by the parts that stand for any number of directories.

* `Part` --- the parts;
* `Part.rests` --- what can be left of a text after a part has matched its beginning;
* `Glob.Matches` --- whether a glob matches a text.

The parts of a glob are taken one after another, and what is kept between them is the list of all
that can be left, each rest once.  So the time that a match takes grows with the length of the text
and not with the number of ways to match it.
-/

namespace LintSetup

open Text (Bytes)

namespace Glob

/-- A part of a glob.

* `literal` is the bytes of one character;
* `anyByte` is one byte other than a slash, and `star` any number of them;
* `oneOf` is one byte in one of the ranges, or in none of them when negated;
* `dirsFirst` is any directories at the start, `dirsBetween` is a slash or any directories
  between two slashes, and `dirsBelow` is a slash and everything after it;
* `choice` is one of several globs. -/
inductive Part where
  | literal (bytes : Bytes)
  | anyByte
  | star
  | oneOf (negated : Bool) (ranges : List (UInt8 × UInt8))
  | dirsFirst
  | dirsBetween
  | dirsBelow
  | choice (branches : List (List Part))
  deriving Repr, Inhabited

/-- The byte of a slash. -/
def slash : UInt8 := 0x2F

/-- What is left of a text after a given beginning. -/
def stripStart : Bytes → Bytes → Option Bytes
  | [], bs => some bs
  | _ :: _, [] => none
  | l :: ls, b :: bs => if l == b then stripStart ls bs else none

/-- What can be left after any number of bytes other than a slash. -/
def restsOfStar : Bytes → List Bytes
  | [] => [[]]
  | b :: bs => (b :: bs) :: if b == slash then [] else restsOfStar bs

/-- What follows each slash of a text. -/
def afterSlashes : Bytes → List Bytes
  | [] => []
  | b :: bs => if b == slash then bs :: afterSlashes bs else afterSlashes bs

/-- All ends of a text, itself first. -/
def ends : Bytes → List Bytes
  | [] => [[]]
  | b :: bs => (b :: bs) :: ends bs

/-- Whether a byte is in one of the ranges. -/
def inRanges (ranges : List (UInt8 × UInt8)) (b : UInt8) : Bool :=
  ranges.any fun (low, high) => low ≤ b && b ≤ high

mutual

/-- Whether a part stands for the empty text because no branch of it says anything. -/
def Part.isBlank : Part → Bool
  | .choice branches => areBlankBranches branches
  | .literal _ | .anyByte | .star | .oneOf .. | .dirsFirst | .dirsBetween | .dirsBelow => false

/-- Whether no branch says anything. -/
def areBlankBranches : List (List Part) → Bool
  | [] => true
  | branch :: rest => areBlank branch && areBlankBranches rest

/-- Whether all parts of a branch stand for the empty text because of that. -/
def areBlank : List Part → Bool
  | [] => true
  | p :: rest => p.isBlank && areBlank rest

end

mutual

/-- What can be left of a text after a part. -/
def Part.rests : Part → Bytes → List Bytes
  | .literal bytes, bs => (stripStart bytes bs).toList
  | .anyByte, bs =>
    match bs with
    | b :: bs => if b == slash then [] else [bs]
    | [] => []
  | .star, bs => restsOfStar bs
  | .oneOf negated ranges, bs =>
    match bs with
    | b :: bs => if inRanges ranges b != negated then [bs] else []
    | [] => []
  | .dirsFirst, bs => bs :: afterSlashes bs
  | .dirsBetween, bs =>
    match bs with
    | b :: bs => if b == slash then bs :: afterSlashes bs else []
    | [] => []
  | .dirsBelow, bs =>
    match bs with
    | b :: bs => if b == slash then ends bs else []
    | [] => []
  | .choice branches, bs =>
    if areBlankBranches branches then [bs] else restsOfBranches branches bs

/-- What can be left of a text after one of several branches; a branch that says nothing is not
one of them. -/
def restsOfBranches : List (List Part) → Bytes → List Bytes
  | [], _ => []
  | branch :: rest, bs =>
    (if areBlank branch then [] else restsOfParts branch [bs]) ++ restsOfBranches rest bs

/-- What can be left of one of several texts after a sequence of parts. -/
def restsOfParts : List Part → List Bytes → List Bytes
  | [], texts => texts
  | p :: rest, texts => restsOfParts rest (texts.flatMap p.rests).eraseDups

end

end Glob

/-- A glob: a sequence of parts. -/
structure Glob where
  parts : List Glob.Part
  deriving Repr, Inhabited

namespace Glob

/-- Whether a glob matches a whole text.  A glob that is nothing but any directories matches
everything. -/
def matchesBytes (g : Glob) (bs : Bytes) : Bool :=
  match g.parts with
  | [.dirsFirst] => true
  | parts => (restsOfParts parts [bs]).any List.isEmpty

/-- Whether a glob matches a path. -/
def matchesPath (g : Glob) (path : String) : Bool := g.matchesBytes (Text.encode path)

end Glob
end LintSetup
