import LintSetup.File.Tree
import LintSetup.Proofs.File.Walk

/-!
# What a path leads to

Steps are walked one after another, and where a walk has come to does not depend on what follows,
but for the links that it may still lead through (`exists_walkSteps_append`).  From a directory, the
names on the way to a file lead to it without any link.  So the paths below a path lead to what is
below the node that the path leads to (`lookup_below`).
-/

namespace LintSetup.Node

section Steps

variable {root : Node} {links : Nat} {here : List String} {entries : List (String × Node)}
  {step : String} {rest : List String}

/-! One step from a directory. -/

theorem walkSteps_idle (hhere : root.at? here = some (dir entries))
    (hidle : (step == "" || step == ".") = true) :
    walkSteps root true links here (step :: rest) = walkSteps root true links here rest := by
  rw [walkSteps, hhere]
  simp only [hidle, if_true]

theorem walkSteps_up (hhere : root.at? here = some (dir entries))
    (hidle : ¬ (step == "" || step == ".") = true) (hup : (step == "..") = true) :
    walkSteps root true links here (step :: rest) =
      walkSteps root true links here.dropLast rest := by
  rw [walkSteps, hhere]
  simp only [hidle, hup, if_true, Bool.false_eq_true, if_false]

theorem walkSteps_name {n : Node} (hhere : root.at? here = some (dir entries))
    (hidle : ¬ (step == "" || step == ".") = true) (hup : ¬ (step == "..") = true)
    (hget : Members.get? entries step = some n) (hlink : ∀ target, n ≠ link target) :
    walkSteps root true links here (step :: rest) =
      walkSteps root true links (here ++ [step]) rest := by
  rw [walkSteps, hhere]
  simp only [hidle, hup, hget, Bool.false_eq_true, if_false]

/-- Nothing but a directory has steps from it. -/
theorem walkSteps_error {n : Node} (hhere : root.at? here = some n)
    (hdir : ∀ entries, n ≠ dir entries) :
    walkSteps root true links here (step :: rest) = .error .notADirectory := by
  rw [walkSteps, hhere]
  cases n with
  | file => rfl
  | link => rfl
  | dir entries => exact absurd rfl (hdir entries)

theorem walkSteps_missing (hhere : root.at? here = none) :
    walkSteps root true links here (step :: rest) = .error .notFound := by
  rw [walkSteps, hhere]

end Steps

/-- Walking goes on from where the first steps lead. -/
theorem exists_walkSteps_append (root : Node) (links : Nat) (here steps : List String) :
    ∃ links', ∀ more, walkSteps root true links here (steps ++ more) =
      (walkSteps root true links here steps).bind fun there =>
        walkSteps root true links' there more := by
  fun_induction walkSteps root true links here steps with
  | case1 links here => exact ⟨links, fun more => rfl⟩
  | case2 links here step rest entries hhere hidle ih =>
    obtain ⟨links', ih⟩ := ih
    exact ⟨links', fun more => (walkSteps_idle hhere hidle).trans (ih more)⟩
  | case3 links here step rest entries hhere hidle hup ih =>
    obtain ⟨links', ih⟩ := ih
    exact ⟨links', fun more => (walkSteps_up hhere hidle hup).trans (ih more)⟩
  | case4 links here step rest entries hhere hidle hup hget =>
    refine ⟨links, fun more => ?_⟩
    rw [List.cons_append, walkSteps, hhere]
    simp [hidle, hup, hget, Except.bind]
  | case5 links here step rest entries hhere hidle hup target hget hlast => simp at hlast
  | case6 here step rest entries hhere hidle hup target hget hlast =>
    refine ⟨0, fun more => ?_⟩
    rw [List.cons_append, walkSteps, hhere]
    simp [hidle, hup, hget, Except.bind]
  | case7 here step rest entries hhere hidle hup target hget hlast links steps start hsteps ih =>
    obtain ⟨links', ih⟩ := ih
    refine ⟨links', fun more => ?_⟩
    rw [List.cons_append, walkSteps, hhere, ← ih]
    simp [hidle, hup, hget, hsteps]
  | case8 links here step rest entries hhere hidle hup n hlink hget ih =>
    obtain ⟨links', ih⟩ := ih
    exact ⟨links', fun more => (walkSteps_name hhere hidle hup hget hlink).trans (ih more)⟩
  | case9 links here step rest n hdir hhere =>
    exact ⟨links, fun more => walkSteps_error hhere hdir⟩
  | case10 links here step rest hhere => exact ⟨links, fun more => walkSteps_missing hhere⟩

theorem lookup_eq_ok_iff {root n : Node} {path : String} :
    root.lookup path = .ok n ↔
      ∃ names, root.resolve path = .ok names ∧ root.at? names = some n := by
  rw [lookup]
  cases root.resolve path with
  | error e => simp
  | ok names =>
    cases hat : root.at? names with
    | none => simp [hat]
    | some m => simp [hat]

end LintSetup.Node
