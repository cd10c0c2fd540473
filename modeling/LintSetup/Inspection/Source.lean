import LintSetup.Candidate.Pool
import LintSetup.Inspection.Linter

/-!
# Inspecting one text

Every live candidate is tried alone: a copy of the configuration, the overlay, gets a `rules` section
with this candidate and nothing else, and the linter is asked for violations.  The overlay goes on
from one candidate to the next.  A candidate whose own rule reports
something is disproven.  A fatal first violation means that the text does not parse; then the trials
stop and nothing is disproven by this text.

The linter may keep the parsed text and name it by a handle.  The first handle that comes back is
used for the trials after it and given back at the end; any further one is given back at once.

* `Trials` --- what the trials of a text have shown so far;
* `tryAll` --- the trials of a list of candidates;
* `inspectText` --- the inspection of a text, with the pool after it.
-/

namespace LintSetup.Inspection

/-- What inspecting one file has come to: the candidates the linter could verify, the candidates the
file removed, and whether it was skipped because it does not parse. -/
structure FileReport where
  path : String
  checked : Nat
  evicted : Nat
  fatal : Bool
  deriving DecidableEq, Repr

/-- What the trials of a text have shown so far. -/
structure Trials where
  checked : Nat := 0
  fatal : Bool := false
  handle : Option Handle := none
  disproven : List Nat := []
  deriving DecidableEq, Repr

/-- Keeps the first handle, and gives back any further one. -/
def keepHandle (kept returned : Option Handle) : Session (Option Handle) :=
  match kept, returned with
  | none, h => pure h
  | some kept, none => pure (some kept)
  | some kept, some extra => do
    let _ ← ask (.release extra)
    pure (some kept)

/-- Tries candidates one after another, each with its `rules` section put over that of the candidate
before it.  A linter that fails says nothing about a candidate. -/
def tryAll (overlay : Config) (text path : String) :
    List (Nat × Candidate) → Trials → Session Trials
  | [], t => pure t
  | (id, c) :: rest, t => do
    let overlay := overlay.withRules c.rules
    match ← ask (.verify text t.handle overlay path) with
    | .error _ => tryAll overlay text path rest t
    | .ok v =>
      let t := { t with checked := t.checked + 1 }
      if v.isFatal then pure { t with fatal := true }
      else
        let handle ← keepHandle t.handle v.handle
        let disproven := if 0 < v.count c.ruleId then t.disproven ++ [id] else t.disproven
        tryAll overlay text path rest { t with handle, disproven }

/-- Gives the kept handle back, if there is one. -/
def releaseKept : Option Handle → Session Unit
  | none => pure ()
  | some h => ask (.release h)

/-- The pool and the report that trials of a text lead to. -/
def conclude (path : String) (pool : Pool) (t : Trials) : FileReport × Pool :=
  if t.fatal then (⟨path, t.checked, 0, true⟩, pool)
  else
    let evicted := (t.disproven.filter pool.contains).length
    (⟨path, t.checked, evicted, false⟩, pool.evictAll t.disproven)

/-- Inspects a text: the report, and the pool without what the text disproves. -/
def inspectText (base : Config) (text path : String) (pool : Pool) :
    Session (FileReport × Pool) := do
  let t ← tryAll base text path pool.live {}
  let _ ← releaseKept t.handle
  return conclude path pool t

end LintSetup.Inspection
