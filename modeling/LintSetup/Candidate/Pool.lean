import LintSetup.Json.Text

/-!
# Candidates and their pool

A candidate is a rule with one setting to try.  The pool holds all candidates of a run; a candidate
is *live* until something evicts it, and nothing makes it live again.  The number of live candidates
is kept beside the flags.

* `Candidate.text` --- a candidate as it appears in messages;
* `Pool.evict`, `Pool.contains` --- taking a candidate out, and asking for it;
* `Pool.next?` --- the first live candidate from a position on, which is how an iteration that other
  changes interrupt goes on;
* `Pool.live` --- all live candidates with their identifiers, in order.
-/

namespace LintSetup

/-- A rule with a setting to try: `"error"`, or a list that starts with it. -/
structure Candidate where
  ruleId : String
  setting : Json

namespace Candidate

/-- The `rules` section that turns on this candidate alone. -/
def rules (c : Candidate) : Members Json := [(c.ruleId, c.setting)]

/-- A candidate as it appears in messages; the identifier is not escaped. -/
def text (c : Candidate) : String :=
  "\x7b\"" ++ c.ruleId ++ "\":" ++ c.setting.compact ++ "\x7d"

end Candidate

/-- Candidates, in order, with whether they are live, and the number of live ones. -/
structure Pool where
  entries : List (Candidate × Bool)
  size : Nat

namespace Pool

/-- The pool in which all candidates are live. -/
def ofList (cs : List Candidate) : Pool := ⟨cs.map (·, true), cs.length⟩

/-- Whether no candidate is live. -/
def isEmpty (p : Pool) : Bool := p.size == 0

/-- The number of candidates that the pool started with. -/
def initialSize (p : Pool) : Nat := p.entries.length

/-- The candidate with an identifier, live or not. -/
def get? (p : Pool) (id : Nat) : Option Candidate := p.entries[id]?.map (·.1)

/-- Whether a candidate is live. -/
def contains (p : Pool) (id : Nat) : Bool := (p.entries[id]?.map (·.2)).getD false

/-- The pool without a candidate. -/
def evict (p : Pool) (id : Nat) : Pool :=
  match p.entries[id]? with
  | some (c, true) => ⟨p.entries.set id (c, false), p.size - 1⟩
  | _ => p

/-- The live candidates with their identifiers, in order. -/
def live (p : Pool) : List (Nat × Candidate) :=
  p.entries.zipIdx.filterMap fun ((c, flag), id) => if flag then some (id, c) else none

/-- The first live candidate whose identifier is at least `id`. -/
def next? (p : Pool) (id : Nat) : Option (Nat × Candidate) := p.live.find? (id ≤ ·.1)

/-- The pool without several candidates. -/
def evictAll (p : Pool) (ids : List Nat) : Pool := ids.foldl evict p

end Pool
end LintSetup
