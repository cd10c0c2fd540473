import LintSetup.Candidate.Pool
import LintSetup.Config
import LintSetup.Rule

/-!
# From survivors to a rules section

What an inspection leaves in the pool becomes a `rules` section in two parts.  First every rule with
a live candidate gets the setting of its first one.  Then every rule that the normalized
configuration turns off is turned off, unless it was adopted or is deprecated.
-/

namespace LintSetup

/-- A rules section, with the number of rules that were adopted and the number of those that were
turned off. -/
structure Reduction where
  rules : Members Json
  enabled : Nat
  disabled : Nat

namespace Reduction

/-- A candidate is adopted unless its rule has a setting. -/
def adopt (r : Reduction) (c : Candidate) : Reduction :=
  if Members.has r.rules c.ruleId then r
  else { r with rules := Members.set r.rules c.ruleId c.setting, enabled := r.enabled + 1 }

/-- The rules that a catalog marks as deprecated. -/
def deprecated (catalog : List Rule) : List String :=
  (catalog.filter (·.deprecated)).map (·.id)

/-- A rule that a configuration turns off is kept off, unless it has a setting or is outdated. -/
def keepOff (outdated : List String) (r : Reduction) (m : String × Json) : Reduction :=
  if !Members.has r.rules m.1 && Config.isOff m.2 && !outdated.contains m.1 then
    { r with rules := Members.set r.rules m.1 (.str "off"), disabled := r.disabled + 1 }
  else r

/-- The rules section of a pool. -/
def ofPool (pool : Pool) (normalized : Config) (catalog : List Rule) : Reduction :=
  let adopted := (pool.live.map (·.2)).foldl adopt ⟨[], 0, 0⟩
  (normalized.rules?.getD []).foldl (keepOff (deprecated catalog)) adopted

end Reduction
end LintSetup
