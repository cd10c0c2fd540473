import LintSetup.Config
import LintSetup.Dialogue
import LintSetup.Failure
import LintSetup.Rule

/-!
# The linter as a conversation partner

An inspection neither parses nor lints.  It asks a linter for its rules, for the configuration that
a base amounts to, for the files that patterns select, for the texts of files and for the violations
in them; it gives handles of parsed texts back; and it tells a progress display how far it is.

Reading a file takes time.  The answer to a request to read says how often the reading will still be
pending when it is looked at, and what comes of it in the end.
-/

namespace LintSetup.Inspection

/-- Stands for a text that the linter has parsed and keeps. -/
abbrev Handle := Nat

/-- What the linter reports about a text, and a handle of the parsed text if it is to be kept. -/
structure Verification where
  violations : List Violation
  handle : Option Handle

/-- Whether the text could not be parsed: the first violation is fatal. -/
def Verification.isFatal (v : Verification) : Bool :=
  (v.violations.head?.map (·.fatal)).getD false

/-- The number of violations of a rule. -/
def Verification.count (v : Verification) (ruleId : String) : Nat :=
  v.violations.countP (·.ruleId == some ruleId)

/-- A reading: how often it will be pending, and what comes of it. -/
structure Reading where
  pending : Nat
  outcome : Except IoError String

/-- What an inspection asks for. -/
inductive Request where
  | rules
  | effectiveConfig (base : Config)
  | listFiles (patterns : List String)
  | read (path : String)
  | verify (text : String) (handle : Option Handle) (config : Config) (path : String)
  | release (handle : Handle)
  | started (total : Nat)
  | ticked
  | finished
  | warn (message : String)

/-- The type of the answer to each request. -/
def Request.Response : Request → Type
  | rules => Except Failure (List Rule)
  | effectiveConfig _ => Except Failure Config
  | listFiles _ => Except Failure (List String)
  | read _ => Reading
  | verify .. => Except Failure Verification
  | release _ | started _ | ticked | finished | warn _ => Unit

/-- The conversation with a linter. -/
def Linter : Interface := ⟨Request, Request.Response⟩

/-- A conversation with a linter, with a result. -/
abbrev Session (α : Type) := Dialogue Linter α

/-- One request as a conversation. -/
def ask (r : Request) : Session r.Response := Dialogue.ask (I := Linter) r

/-- A run goes on with the answer to what is asked first. -/
theorem run_ask {σ α : Type} (h : Handler Linter σ) (r : Request) (f : r.Response → Session α)
    (s : σ) : (ask r >>= f).run h s = (f (h r s).1).run h (h r s).2 := rfl

/-- What is asked first comes first in the transcript. -/
theorem transcript_ask {σ α : Type} (h : Handler Linter σ) (r : Request)
    (f : r.Response → Session α) (s : σ) :
    (ask r >>= f).transcript h s = ⟨r, (h r s).1⟩ :: (f (h r s).1).transcript h (h r s).2 := rfl

end LintSetup.Inspection
