import LintSetup.Text.Blank

/-!
# Paths

A path is a text and stays as it was written: joining and taking the parent do not tidy it up.  What
it means is the list of its components, for which repeated slashes and a single dot do not count,
except for a dot at the start of a relative path.

* `join` --- a path relative to another;
* `components` --- what a path means; `same` compares two paths by it;
* `ancestors` --- a path and the paths above it, nearest first;
* `relativeTo` --- the rest of a path below another.
-/

namespace LintSetup.Path

/-- Whether a path starts at the root. -/
def isAbsolute (p : String) : Bool := p.toList.head? == some '/'

/-- A path as seen from another: itself if it is absolute. -/
def join (base p : String) : String :=
  if isAbsolute p then p
  else if base.isEmpty || base.toList.getLast? == some '/' then base ++ p
  else base ++ "/" ++ p

/-- Whether a step of a path does not count. -/
def isIdle (step : String) : Bool := step == "" || step == "."

/-- The steps of a path as written. -/
def steps (p : String) : List String := Text.pieces '/' p

/-- The steps of a path that count.  A relative path may start with a dot. -/
def components (p : String) : List String :=
  if isAbsolute p then "/" :: (steps p).filter (!isIdle ·)
  else
    match steps p with
    | "." :: rest => "." :: rest.filter (!isIdle ·)
    | all => all.filter (!isIdle ·)

/-- Whether two paths mean the same. -/
def same (p q : String) : Bool := components p == components q

/-- The text of steps. -/
def ofSteps (absolute : Bool) (ss : List String) : String :=
  (if absolute then "/" else "") ++ "/".intercalate ss

/-- Whether a step counts that comes after others, of which the last is given first.  A dot counts
only at the start of a relative path. -/
def counts (absolute : Bool) (before : List String) (step : String) : Bool :=
  !isIdle step || (!absolute && before.isEmpty && step == ".")

/-- The paths that end at one of the steps that count, last first, and the path without any, from
steps in reverse order. -/
def endings (absolute : Bool) : List String → List String
  | [] => [ofSteps absolute []]
  | s :: before =>
    if counts absolute before s then
      ofSteps absolute (s :: before).reverse :: endings absolute before
    else endings absolute before

/-- The steps of a path after the slash that it starts with, if it does. -/
def stepsFromStart (p : String) : List String :=
  if isAbsolute p then (steps p).drop 1 else steps p

/-- A path and the paths above it, nearest first.  The path itself stays as it was written. -/
def ancestors (p : String) : List String :=
  p :: (endings (isAbsolute p) (stepsFromStart p).reverse).tail

/-- The path above a path. -/
def parent? (p : String) : Option String := (ancestors p)[1]?

/-- Takes components off the start of steps. -/
def stripSteps : List String → List String → Option (List String)
  | ss, [] => some ss
  | [], _ :: _ => none
  | s :: ss, c :: cs =>
    if isIdle s then stripSteps ss (c :: cs)
    else if s = c then stripSteps ss cs
    else none

/-- The rest of a path below another, with idle steps at its ends taken off; the path itself if it
is not below the other. -/
def relativeTo (base p : String) : String :=
  if isAbsolute p && isAbsolute base then
    match stripSteps (steps p) ((components base).drop 1) with
    | some rest =>
      ofSteps false ((rest.dropWhile isIdle).reverse.dropWhile isIdle).reverse
    | none => p
  else p

end LintSetup.Path
