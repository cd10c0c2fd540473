import LintSetup.Candidate.Pool
import LintSetup.Options.Space
import LintSetup.Rule
import LintSetup.Schema.Normal

/-!
# The settings worth trying

A rule is tried as it is, with the bare setting `"error"`, and with every list of options that its
schema admits.  When the schema has a part that cannot be listed, or admits too many lists, the rule
is tried as it is and nothing else.  The elements are asked for one at a time, so that a large space
costs no more than the limit.

* `settings` --- the settings to try for a rule;
* `candidates` --- the candidates of a catalog.
-/

namespace LintSetup.Options

/-- The largest number of settings for one rule unless another one is asked for. -/
def standardLimit : Nat := 255

/-- The setting without options. -/
def bare : Json := .str "error"

/-- The setting with the options of one element: the items of a list, or the one value. -/
def withOptions : Json → Json
  | .arr options => .arr (bare :: options)
  | v => .arr [bare, v]

/-- Goes on with the settings found so far: takes one element after another, and adds the setting with
its options.  All but the first setting are dropped when listing had to give up, and as soon as there
are more than `limit` of them. -/
def collect (limit : Nat) (found : List Json) : Dialogue (Lazy.Elements Choice) (List Json) := do
  match ← Lazy.nextElement with
  | none => return found
  | some .unsupported => return found.take 1
  | some (.value v) =>
    let more := found ++ [withOptions v]
    if limit < more.length then return more.take 1 else collect limit more
termination_by limit + 1 - found.length
decreasing_by
  simp only [more, List.length_append, List.length_singleton] at *
  omega

/-- The settings to try for a rule, the bare one first. -/
def settings (rule : Rule) (limit : Nat) : List Json :=
  ((collect limit [bare]).run Lazy.handOut fun _ => choices (Schema.normalize rule.schema)).1

/-- The candidates of a rule. -/
def candidatesOf (limit : Nat) (rule : Rule) : List Candidate :=
  (settings rule limit).map (Candidate.mk rule.id)

/-- Whether a rule is worth trying: deprecated rules are not, and recommended ones are on anyway. -/
def isWorthTrying (rule : Rule) : Bool := !rule.deprecated && !rule.recommended

/-- The candidates of a catalog in its order. -/
def candidates (catalog : List Rule) (limit : Nat) : List Candidate :=
  (catalog.filter isWorthTrying).flatMap (candidatesOf limit)

end LintSetup.Options
