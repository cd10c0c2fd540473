/-!
# Versions and ranges

A version has three numbers and possibly a prerelease, which makes it come before the version
without one.  An interval of versions has two ends, each of which may be open, closed or missing; a
range is a union of intervals.

All ends, lower and upper, stand in one order: by version, and at the same version an open upper end
comes first, then a closed lower end, a closed upper end and an open lower end.  An interval holds
something exactly when its lower end comes before its upper end in this order.

* `Version.compare` --- the order of versions;
* `Bound.le` --- the order of ends;
* `Interval.meet?` --- what two intervals have in common;
* `Range.intersects` --- whether two ranges have anything in common.
-/

namespace LintSetup

/-- A part of a prerelease: a number, or a word, which comes after every number. -/
inductive Identifier where
  | number (n : Nat)
  | word (s : String)
  deriving DecidableEq, Repr

/-- The order of the parts of a prerelease. -/
def Identifier.compare : Identifier → Identifier → Ordering
  | number m, number n => Ord.compare m n
  | number _, word _ => .lt
  | word _, number _ => .gt
  | word s, word t => if s < t then .lt else if t < s then .gt else .eq

/-- A version. -/
structure Version where
  major : Nat
  minor : Nat
  patch : Nat
  prerelease : List Identifier := []
  deriving DecidableEq, Repr

namespace Version

/-- The order of prereleases that are not empty: part by part, and a shorter one before its
continuations. -/
def compareParts : List Identifier → List Identifier → Ordering
  | [], [] => .eq
  | [], _ :: _ => .lt
  | _ :: _, [] => .gt
  | a :: as, b :: bs =>
    match a.compare b with
    | .eq => compareParts as bs
    | o => o

/-- The order of prereleases: none comes last. -/
def comparePrereleases : List Identifier → List Identifier → Ordering
  | [], [] => .eq
  | [], _ :: _ => .gt
  | _ :: _, [] => .lt
  | as, bs => compareParts as bs

/-- The order of versions. -/
def compare (v w : Version) : Ordering :=
  match Ord.compare v.major w.major with
  | .eq =>
    match Ord.compare v.minor w.minor with
    | .eq =>
      match Ord.compare v.patch w.patch with
      | .eq => comparePrereleases v.prerelease w.prerelease
      | o => o
    | o => o
  | o => o

/-- The first prerelease of a version. -/
def first (major minor patch : Nat) : Version := ⟨major, minor, patch, [.number 0]⟩

end Version

/-- An end of an interval. -/
inductive Bound where
  | below
  | opensUpper (v : Version)
  | closesLower (v : Version)
  | closesUpper (v : Version)
  | opensLower (v : Version)
  | above
  deriving DecidableEq, Repr

namespace Bound

/-- The place of an end among the ends at the same version. -/
def rank : Bound → Nat
  | below => 0
  | opensUpper _ => 1
  | closesLower _ => 2
  | closesUpper _ => 3
  | opensLower _ => 4
  | above => 5

/-- The version of an end. -/
def version? : Bound → Option Version
  | below | above => none
  | opensUpper v | closesLower v | closesUpper v | opensLower v => some v

/-- The order of ends. -/
def compare (a b : Bound) : Ordering :=
  match a.version?, b.version? with
  | some v, some w =>
    match v.compare w with
    | .eq => Ord.compare a.rank b.rank
    | o => o
  | _, _ => Ord.compare a.rank b.rank

/-- The later of two ends. -/
def later (a b : Bound) : Bound := if a.compare b == .lt then b else a

/-- The earlier of two ends. -/
def earlier (a b : Bound) : Bound := if a.compare b == .gt then b else a

end Bound

/-- An interval of versions. -/
structure Interval where
  lower : Bound
  upper : Bound
  deriving DecidableEq, Repr

namespace Interval

/-- The interval between two ends, unless it holds nothing. -/
def between? (lower upper : Bound) : Option Interval :=
  if lower.compare upper == .lt then some ⟨lower, upper⟩ else none

/-- What two intervals have in common. -/
def meet? (a b : Interval) : Option Interval :=
  between? (Bound.later a.lower b.lower) (Bound.earlier a.upper b.upper)

/-- All versions. -/
def all : Interval := ⟨.below, .above⟩

end Interval

/-- A range: a union of intervals. -/
structure Range where
  intervals : List Interval
  deriving DecidableEq, Repr

/-- Whether two ranges have anything in common. -/
def Range.intersects (a b : Range) : Bool :=
  a.intervals.any fun i => b.intervals.any fun j => (i.meet? j).isSome

end LintSetup
