import LintSetup.Proofs.File.Above
import LintSetup.Proofs.File.Lookup

/-!
# Places that several paths lead to

A place of the tree can be written in many ways.  In front of further steps the steps that do not
count can be left out (`walkSteps_filter_append`), so what a path leads to below another one depends
on the components of the other one only (`lookup_join_congr`).  Links lead to one place from
different paths.  The place itself is a list of names (`isName_of_resolve`), and no two places are
written in the same way, so comparing the paths without links is comparing the places
(`canonical?_eq_some_iff`).
-/

namespace LintSetup.Node

/-! ## Steps that do not count -/

section Walk

variable {root : Node} {links : Nat} {here : List String}

/-- A step that does not count can be left out in front of others. -/
theorem walkSteps_idle_cons {step : String} {rest : List String} (hidle : Path.isIdle step = true)
    (hrest : rest ≠ []) :
    walkSteps root true links here (step :: rest) = walkSteps root true links here rest := by
  obtain ⟨next, rest, rfl⟩ := List.exists_cons_of_ne_nil hrest
  cases hhere : root.at? here with
  | none => rw [walkSteps_missing hhere, walkSteps_missing hhere]
  | some n =>
    cases n with
    | dir entries => exact walkSteps_idle hhere hidle
    | file content executable =>
      rw [walkSteps_error hhere (by simp), walkSteps_error hhere (by simp)]
    | link target => rw [walkSteps_error hhere (by simp), walkSteps_error hhere (by simp)]

/-- In front of others, all steps that do not count can be left out. -/
theorem walkSteps_filter_append {rest : List String} (hrest : rest ≠ []) (steps : List String) :
    walkSteps root true links here (steps ++ rest) =
      walkSteps root true links here (steps.filter (!Path.isIdle ·) ++ rest) := by
  induction steps generalizing links here with
  | nil => rfl
  | cons step steps ih =>
    cases hidle : Path.isIdle step with
    | true =>
      rw [List.cons_append, walkSteps_idle_cons hidle (List.append_ne_nil_of_right_ne_nil _ hrest),
        ih, List.filter_cons_of_neg (by simp [hidle])]
    | false =>
      obtain ⟨links', happend⟩ := exists_walkSteps_append root links here [step]
      simp only [List.singleton_append] at happend
      rw [List.filter_cons_of_pos (by simp [hidle]), List.cons_append, List.cons_append]
      refine (happend _).trans (Eq.trans ?_ (happend _).symm)
      exact congrArg _ (funext fun there => ih)

end Walk

/-- The steps that count are known from the components. -/
theorem filter_components (path : String) :
    (Path.components path).filter (!Path.isIdle ·) =
      Path.rootPart (Path.isAbsolute path) ++ (Path.steps path).filter (!Path.isIdle ·) := by
  cases hpath : Path.isAbsolute path with
  | true =>
    rw [Path.components_of_absolute hpath, List.filter_cons_of_pos (by decide), List.filter_filter]
    simp [Path.rootPart]
  | false =>
    rw [Path.components_of_relative hpath]
    split
    · next hdot =>
      obtain ⟨rest, hsteps⟩ := List.head?_eq_some_iff.mp hdot
      rw [hsteps]
      simp [Path.rootPart, Path.isIdle]
    · simp [Path.rootPart]

theorem filter_steps_congr {p q : String} (h : Path.components p = Path.components q) :
    (Path.steps p).filter (!Path.isIdle ·) = (Path.steps q).filter (!Path.isIdle ·) := by
  have hstart : Path.isAbsolute p = Path.isAbsolute q := by
    rw [Path.isAbsolute_eq, Path.isAbsolute_eq, h]
  refine (List.append_right_inj (Path.rootPart (Path.isAbsolute p))).mp ?_
  rw [← filter_components, h, filter_components, hstart]

/-- What a path leads to below another one depends on the components of the other one only. -/
theorem lookup_join_congr {root : Node} {p q relative : String}
    (hrelative : Path.isAbsolute relative = false) (h : Path.components p = Path.components q) :
    root.lookup (Path.join p relative) = root.lookup (Path.join q relative) := by
  have hwalk : ∀ path, root.resolve (Path.join path relative) =
      walkSteps root true maxLinks []
        ((Path.steps path).filter (!Path.isIdle ·) ++ Path.steps relative) := by
    intro path
    obtain ⟨front, hfront, hsteps⟩ := Path.exists_front path
    rw [resolve, Path.join_eq hrelative, hsteps, walkSteps_filter_append (Path.steps_ne_nil _),
      Path.filter_steps_eq hfront]
  rw [lookup, lookup, hwalk, hwalk, filter_steps_congr h]

/-! ## Names of a place -/

/-- A step that counts and does not lead up is a name. -/
theorem isName_of_step {step : String} (hslash : '/' ∉ step.toList)
    (hidle : ¬ (step == "" || step == ".") = true) (hup : ¬ (step == "..") = true) :
    Path.IsName step := by
  rw [Bool.or_eq_true, beq_iff_eq, beq_iff_eq, not_or] at hidle
  exact ⟨hidle.1, hslash, hidle.2, fun h => hup (beq_iff_eq.mpr h)⟩

theorem isName_concat {names : List String} {name : String}
    (h : ∀ name ∈ names, Path.IsName name) (hname : Path.IsName name) :
    ∀ other ∈ names ++ [name], Path.IsName other :=
  List.forall_mem_append.mpr ⟨h, List.forall_mem_singleton.mpr hname⟩

/-- A walk over steps without slashes leads from names to names. -/
theorem isName_of_walkSteps {root : Node} {followLast : Bool} {links : Nat}
    {here steps place : List String} (hhere : ∀ name ∈ here, Path.IsName name)
    (hsteps : ∀ step ∈ steps, '/' ∉ step.toList)
    (h : walkSteps root followLast links here steps = .ok place) :
    ∀ name ∈ place, Path.IsName name := by
  fun_induction walkSteps root followLast links here steps with
  | case1 links here =>
    obtain rfl := Except.ok.inj h
    exact hhere
  | case2 links here step rest entries hat hidle ih =>
    exact ih hhere (List.forall_mem_cons.mp hsteps).2 h
  | case3 links here step rest entries hat hidle hup ih =>
    exact ih (fun name hname => hhere name (List.mem_of_mem_dropLast hname))
      (List.forall_mem_cons.mp hsteps).2 h
  | case4 links here step rest entries hat hidle hup hget => cases h
  | case5 links here step rest entries hat hidle hup target hget hlast =>
    obtain rfl := Except.ok.inj h
    exact isName_concat hhere (isName_of_step (List.forall_mem_cons.mp hsteps).1 hidle hup)
  | case6 here step rest entries hat hidle hup target hget hlast => cases h
  | case7 here step rest entries hat hidle hup target hget hlast links steps start hlink ih =>
    obtain ⟨rfl, rfl⟩ := Prod.mk.inj hlink
    refine ih (fun name hname => ?_) (fun step hstep => ?_) h
    · split at hname
      · cases hname
      · exact hhere name hname
    · obtain hstep | hstep := List.mem_append.mp hstep
      · exact Path.slashless_of_mem_steps hstep
      · exact (List.forall_mem_cons.mp hsteps).2 step hstep
  | case8 links here step rest entries hat hidle hup n hlink hget ih =>
    obtain ⟨hstep, hrest⟩ := List.forall_mem_cons.mp hsteps
    exact ih (isName_concat hhere (isName_of_step hstep hidle hup)) hrest h
  | case9 links here step rest n hdir hat => cases h
  | case10 links here step rest hat => cases h

theorem isName_of_resolve {root : Node} {path : String} {place : List String}
    (h : root.resolve path = .ok place) : ∀ name ∈ place, Path.IsName name :=
  isName_of_walkSteps (by simp) (fun _ => Path.slashless_of_mem_steps) h

/-- Places are written in different ways. -/
theorem eq_of_pathOf_eq {names names' : List String} (hnames : ∀ name ∈ names, Path.IsName name)
    (hnames' : ∀ name ∈ names', Path.IsName name) (h : pathOf names = pathOf names') :
    names = names' := by
  have hcomponents : ∀ names, (∀ name ∈ names, Path.IsName name) →
      Path.components (pathOf names) = "/" :: names := by
    intro names hnames
    have hsteps : Path.AreSteps true names :=
      ⟨fun name hname => (hnames name hname).slashless, nofun⟩
    rw [pathOf, Path.components_ofSteps hsteps, Path.counted, if_neg (by simp),
      Path.filter_not_isIdle hnames]
    rfl
  have hcons := congrArg Path.components h
  rw [hcomponents names hnames, hcomponents names' hnames'] at hcons
  exact (List.cons.inj hcons).2

theorem canonical?_eq_some_iff {root : Node} {path text : String} :
    root.canonical? path = some text ↔
      ∃ place, root.resolve path = .ok place ∧ pathOf place = text := by
  rw [canonical?]
  cases root.resolve path <;> simp [Except.toOption]

/-- **The path without links is as good as the place.**  Two paths have the same one exactly if they
lead to the same place. -/
theorem exists_canonical?_iff {root : Node} {p q : String} :
    (∃ text, root.canonical? p = some text ∧ root.canonical? q = some text) ↔
      ∃ place, root.resolve p = .ok place ∧ root.resolve q = .ok place := by
  simp only [canonical?_eq_some_iff]
  constructor
  · rintro ⟨_, ⟨place, hp, rfl⟩, place', hq, htext⟩
    obtain rfl := eq_of_pathOf_eq (isName_of_resolve hq) (isName_of_resolve hp) htext
    exact ⟨place', hp, hq⟩
  · rintro ⟨place, hp, hq⟩
    exact ⟨pathOf place, ⟨place, hp, rfl⟩, place, hq, rfl⟩

end LintSetup.Node
