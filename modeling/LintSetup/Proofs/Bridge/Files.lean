import LintSetup.Bridge.Process
import LintSetup.Proofs.Dialogue

/-!
# The linter's process and the files

Inspecting files and mending texts go through the linter's process.  For them the machine is asked
for the files, told what the user is to see, and has the process started and talked to
(`forLinter_inspect`, `forLinter_fix`).  That is all, so no other program is run, and no file is
written (`leavesFiles_inspect`, `leavesFiles_fix`): whatever is written is written by those who use
what an inspection or a mended text comes to.
-/

namespace LintSetup.Bridge

/-- Whether a request to the machine leaves the files as they are. -/
def LeavesFiles : Host.Request → Prop
  | .write .. => False
  | .files | .searchPath | .ownProgram | .print _ | .complain _ | .warn _ | .start .. | .wait _
  | .send .. | .receive .. | .kill _ => True

/-- What is asked of the machine for the linter: the files, to tell the user something, and to
exchange lines with a process. -/
def ForLinter : Host.Request → Prop
  | .files | .print _ | .warn _ | .start _ .piped | .send .. | .receive .. | .kill _ => True
  | .searchPath | .ownProgram | .write .. | .complain _ | .start _ _ | .wait _ => False

theorem leavesFiles_of_forLinter (r : Host.Request) (h : ForLinter r) : LeavesFiles r := by
  cases r with
  | write => exact h.elim
  | _ => trivial

theorem forLinter_query {α : Type} (q : Query α) (link : Link) :
    (query q link).Always ForLinter := by
  have hany : (q.run (link.lastId + 1)).Always fun _ => True := fun _ _ _ _ _ => trivial
  refine (hany.through fun r _ => ?_).bind fun _ => Dialogue.always_pure _
  cases r <;> exact Dialogue.always_ask trivial

theorem forLinter_warnAll (warnings : List String) : (warnAll warnings).Always ForLinter := by
  induction warnings with
  | nil => exact Dialogue.always_pure _
  | cons message rest ih => exact (Dialogue.always_ask trivial).bind fun _ => ih

theorem forLinter_answer (directory : String) (display : Inspection.Display)
    (r : Inspection.Request) (link : Link) :
    (answer directory display r link).Always ForLinter := by
  cases r with
  | rules | effectiveConfig | verify => exact forLinter_query _ _
  | listFiles =>
    exact (Dialogue.always_ask trivial).bind fun _ => (forLinter_warnAll _).bind fun _ =>
      Dialogue.always_pure _
  | read => exact (Dialogue.always_ask trivial).bind fun _ => Dialogue.always_pure _
  | release => exact (forLinter_query _ _).bind fun _ => Dialogue.always_pure _
  | started => exact (Dialogue.always_ask trivial).bind fun _ => Dialogue.always_pure _
  | ticked | finished => exact Dialogue.always_pure _
  | warn => exact (Dialogue.always_ask trivial).bind fun _ => Dialogue.always_pure _

theorem forLinter_open? (directory : String) : (open? directory).Always ForLinter := by
  refine (Dialogue.always_ask trivial).bind fun files => ?_
  split
  · exact Dialogue.always_pure _
  · refine (Dialogue.always_ask trivial).bind fun started => ?_
    split <;> exact Dialogue.always_pure _

theorem forLinter_inspect (directory : String) (settings : Inspection.Settings) (base : Config)
    (patterns : List String) : (inspect directory settings base patterns).Always ForLinter := by
  refine (forLinter_open? directory).bind fun opened => ?_
  split
  · exact Dialogue.always_pure _
  · exact (Dialogue.always_throughWith (forLinter_answer _ _) _ _).bind fun _ =>
      (Dialogue.always_ask trivial).bind fun _ => Dialogue.always_pure _

theorem forLinter_fix (directory text : String) (config : Config) :
    (fix directory text config).Always ForLinter := by
  refine (forLinter_open? directory).bind fun opened => ?_
  split
  · exact Dialogue.always_pure _
  · exact (forLinter_query _ _).bind fun _ => (Dialogue.always_ask trivial).bind fun _ =>
      Dialogue.always_pure _

/-- An inspection writes no file. -/
theorem leavesFiles_inspect (directory : String) (settings : Inspection.Settings) (base : Config)
    (patterns : List String) : (inspect directory settings base patterns).Always LeavesFiles :=
  (forLinter_inspect directory settings base patterns).mono leavesFiles_of_forLinter

/-- Mending a text writes no file. -/
theorem leavesFiles_fix (directory text : String) (config : Config) :
    (fix directory text config).Always LeavesFiles :=
  (forLinter_fix directory text config).mono leavesFiles_of_forLinter

end LintSetup.Bridge
