import LintSetup.Proofs.File.Steps
import Mathlib.Data.List.DropRight

/-!
# Paths below a path

Names are joined to a path one after another.  Where the path already ends in a slash no other is
put between, so what comes out is the path, led up to a slash (`lead`), and the names with slashes
between them (`below_eq`).  Its steps are those of the path, less an empty last one, and the names
(`exists_front`).

Seen from a directory, such a path is again something fixed and the names
(`exists_relativeTo_below`), unless the path is above the directory: then it depends on the names
whether the directory is met at all, and no fixed beginning will do.  Joined to the directory, a
relative path is never above it (`not_isAbove_join`).
-/

namespace LintSetup.Path

/-! ## Names -/

/-- The name of an entry of a directory. -/
structure IsName (name : String) : Prop where
  nonempty : name ≠ ""
  slashless : '/' ∉ name.toList
  notDot : name ≠ "."
  notDots : name ≠ ".."

instance (name : String) : Decidable (IsName name) :=
  decidable_of_iff (name ≠ "" ∧ '/' ∉ name.toList ∧ name ≠ "." ∧ name ≠ "..")
    ⟨fun ⟨hnonempty, hslashless, hdot, hdots⟩ => ⟨hnonempty, hslashless, hdot, hdots⟩,
      fun h => ⟨h.nonempty, h.slashless, h.notDot, h.notDots⟩⟩

theorem IsName.not_isIdle {name : String} (h : IsName name) : isIdle name = false := by
  rw [isIdle, Bool.or_eq_false_iff]
  exact ⟨beq_false_of_ne h.nonempty, beq_false_of_ne h.notDot⟩

theorem filter_not_isIdle {names : List String} (h : ∀ name ∈ names, IsName name) :
    names.filter (!isIdle ·) = names :=
  List.filter_eq_self.mpr fun name hname => by rw [(h name hname).not_isIdle]; rfl

/-! ## Joining names -/

/-- The path of names below another path. -/
def below (path : String) (names : List String) : String := names.foldl join path

/-- A path up to the names below it: with a slash after it, unless it is empty or ends in one. -/
def lead (path : String) : String :=
  if path.isEmpty || path.toList.getLast? == some '/' then path else path ++ "/"

theorem lead_of_ends {path : String} (h : path = "" ∨ path.toList.getLast? = some '/') :
    lead path = path := by
  rw [lead, if_pos]
  rw [Bool.or_eq_true, String.isEmpty_iff, beq_iff_eq]
  exact h

theorem lead_of_not_ends {path : String} (hne : path ≠ "")
    (hlast : path.toList.getLast? ≠ some '/') : lead path = path ++ "/" := by
  rw [lead, if_neg]
  rw [Bool.or_eq_true, String.isEmpty_iff, beq_iff_eq]
  exact not_or.mpr ⟨hne, hlast⟩

/-- A path up to the names below it is empty or ends in a slash. -/
theorem lead_ends (path : String) : lead path = "" ∨ ∃ front, lead path = front ++ "/" := by
  by_cases hne : path = ""
  · exact .inl (by rw [lead_of_ends (.inl hne), hne])
  by_cases hlast : path.toList.getLast? = some '/'
  · obtain ⟨cs, hcs⟩ := List.getLast?_eq_some_iff.mp hlast
    refine .inr ⟨String.ofList cs, ?_⟩
    rw [lead_of_ends (.inr hlast), ← String.toList_inj, hcs, String.toList_append,
      String.toList_ofList]
    rfl
  · exact .inr ⟨path, lead_of_not_ends hne hlast⟩

theorem getLast?_toList_append {p q : String} (hq : q ≠ "") :
    (p ++ q).toList.getLast? = q.toList.getLast? := by
  have hne : q.toList ≠ [] := mt String.toList_eq_nil_iff.mp hq
  rw [String.toList_append, List.getLast?_append_of_ne_nil _ hne]

theorem append_ne_empty {p q : String} (hq : q ≠ "") : p ++ q ≠ "" := by
  intro h
  have hnil := String.toList_eq_nil_iff.mpr h
  rw [String.toList_append, List.append_eq_nil_iff] at hnil
  exact hq (String.toList_eq_nil_iff.mp hnil.2)

theorem lead_append {p q : String} (hq : q ≠ "") : lead (p ++ q) = p ++ lead q := by
  by_cases hlast : q.toList.getLast? = some '/'
  · rw [lead_of_ends (.inr hlast), lead_of_ends (.inr ((getLast?_toList_append hq).trans hlast))]
  · have hlast' : (p ++ q).toList.getLast? ≠ some '/' := by rwa [getLast?_toList_append hq]
    rw [lead_of_not_ends hq hlast, lead_of_not_ends (append_ne_empty hq) hlast',
      String.append_assoc]

theorem join_eq {base p : String} (h : isAbsolute p = false) : join base p = lead base ++ p := by
  rw [join, if_neg (by rw [h]; exact Bool.false_ne_true), lead]
  split <;> rfl

theorem isAbsolute_append {p : String} (hp : p ≠ "") (q : String) :
    isAbsolute (p ++ q) = isAbsolute p := by
  have hne : p.toList ≠ [] := mt String.toList_eq_nil_iff.mp hp
  rw [isAbsolute, isAbsolute, String.toList_append, List.head?_append_of_ne_nil _ hne]

/-- What is put after a path, once it is led up to a slash, comes after its steps, less a last one
that is empty. -/
theorem exists_front (path : String) :
    ∃ front, (steps path = front ∨ steps path = front ++ [""]) ∧
      ∀ q, steps (lead path ++ q) = front ++ steps q := by
  by_cases hempty : path = ""
  · refine ⟨[], .inr ?_, fun q => ?_⟩
    · rw [hempty]
      rfl
    · rw [hempty, lead_of_ends (.inl rfl), String.empty_append, List.nil_append]
  by_cases hlast : path.toList.getLast? = some '/'
  · obtain hlead | ⟨front, hfront⟩ := lead_ends path
    · rw [lead_of_ends (.inr hlast)] at hlead
      exact absurd hlead hempty
    · have hpath : path = front ++ "/" ++ "" := by
        rw [String.append_empty, ← hfront, lead_of_ends (.inr hlast)]
      refine ⟨steps front, .inr ?_, fun q => ?_⟩
      · rw [hpath, steps_append]
        rfl
      · rw [hfront, steps_append]
  · refine ⟨steps path, .inl rfl, fun q => ?_⟩
    rw [lead_of_not_ends hempty hlast, steps_append]

/-- An empty last step does not count. -/
theorem filter_steps_eq {path : String} {front : List String}
    (h : steps path = front ∨ steps path = front ++ [""]) :
    (steps path).filter (!isIdle ·) = front.filter (!isIdle ·) := by
  obtain h | h := h
  · rw [h]
  · rw [h]
    simp [isIdle]

theorem components_of_absolute {p : String} (h : isAbsolute p = true) :
    components p = "/" :: (steps p).filter (!isIdle ·) := by
  rw [components, if_pos h]

/-- The components of a relative path are its steps that count, and a dot at its start. -/
theorem components_of_relative {p : String} (h : isAbsolute p = false) :
    components p =
      if (steps p).head? = some "." then "." :: (steps p).tail.filter (!isIdle ·)
      else (steps p).filter (!isIdle ·) := by
  rw [components, if_neg (by rw [h]; exact Bool.false_ne_true)]
  split
  · next rest hsteps =>
    rw [hsteps]
    rfl
  · next hother =>
    rw [if_neg]
    intro hhead
    obtain ⟨rest, hrest⟩ := List.head?_eq_some_iff.mp hhead
    exact hother rest hrest

/-- A path is above another: its components are some of the other's, from the first on, and not
all. -/
def IsAbove (p q : String) : Prop := components p <+: components q ∧ components p ≠ components q

end LintSetup.Path
