import LintSetup.Options.Setting
import LintSetup.Proofs.Schema.Settled

/-!
# Schemas with their references inlined beforehand

A reference may stand anywhere in the schema of a rule, and one would like to write it out without
changing what the rule can be set to.  Normalizing resolves references, and resolving what has no
references does nothing; so the two orders, resolving first and normalizing first, can differ in one
thing only: whether the schema is taken for a schema of the option list.  That is decided before
references are resolved.

A reference below the top has no say in it, as inlining keeps the keys of an object and its texts
(`describesList_inlineMembers`).  The reference at the top has, and `BecomesList` is the case in
which it makes a difference.  There, and only there, the normal form of the schema as it stands is
one list too deep (`normalize_resolve_iff`).
-/

namespace LintSetup.Schema

/-- A schema becomes one of the option list when its references are inlined: it is none as it
stands, but what the reference at its top stands for makes it one. -/
def BecomesList (members : Members Json) : Prop :=
  describesList members = false ∧ ∃ r, referenceOf members = some r ∧
    LendsList members (follow (.obj members) (references (.obj members)) r).1

/-- A resolved object describes the option list if it did before, or has become one that does. -/
theorem exists_resolve_describesList_iff (members : Members Json) :
    ∃ members', (resolve (.obj members)).1 = .obj members' ∧
      (describesList members' = true ↔ describesList members = true ∨ BecomesList members) := by
  rw [resolve]
  generalize hf : follow (.obj members) (references (.obj members)) = fetch
  cases hr : referenceOf members with
  | none =>
    refine ⟨_, congrArg Prod.fst (inline_obj_of_none fetch hr), ?_⟩
    rw [describesList_inlineMembers]
    simp [BecomesList, hr]
  | some r =>
    refine ⟨_, congrArg Prod.fst (inline_obj_of_some fetch hr), ?_⟩
    -- whether the object lacks a type shows before and after its members are inlined
    have hlends : LendsList (inlineMembers fetch members).1 (fetch r).1 ↔
        LendsList members (fetch r).1 := by
      rw [LendsList, get?_inlineMembers, Option.map_eq_none_iff, LendsList]
    rw [describesList_absorb_iff, describesList_inlineMembers, hlends, BecomesList, hf]
    cases describesList members <;> simp [hr]

/-- A list with one position is larger than the schema of that position. -/
theorem listOf_singleton_ne (v : Json) : listOf [v] ≠ v := by
  intro h
  have hsize := congrArg sizeOf h
  simp [listOf] at hsize
  omega

/-- **Inlining references beforehand.**  An object schema and what it resolves to have the same
normal form, and lead to the same settings, exactly unless the schema becomes one of the option list
by the reference at its top.  Then the normal form of the schema as it stands is a list whose only
position is the normal form that one would expect. -/
theorem normalize_resolve_iff (members : Members Json) :
    let s := Json.obj members
    let s' := (resolve s).1
    (normalize s' = normalize s ↔ ¬ BecomesList members) ∧
      (BecomesList members → normalize s = listOf [normalize s']) ∧
      (¬ BecomesList members → ∀ (rule : Rule) (limit : Nat),
        Options.settings { rule with schema := s' } limit =
          Options.settings { rule with schema := s } limit) := by
  intro s s'
  obtain ⟨members', hs, hlist⟩ := exists_resolve_describesList_iff members
  have hclean : references (.obj members') = [] := hs ▸ references_resolve s
  have hsame : ¬ BecomesList members → normalize s' = normalize s := by
    intro hnot
    have hagree : describesList members' = describesList members := by
      rw [Bool.eq_iff_iff, hlist]
      exact or_iff_left hnot
    show normalize (resolve s).1 = normalize s
    rw [hs, normalize, hagree, resolve_of_references_eq_nil hclean, normalize, hs]
  have hdeep : BecomesList members → normalize s = listOf [normalize s'] := by
    intro hbecomes
    have hkept : normalize s' = .obj members' := by
      show normalize (resolve s).1 = .obj members'
      rw [hs, normalize_eq_self (hlist.mpr (.inr hbecomes)) hclean]
    rw [hkept, normalize, hbecomes.1, if_neg Bool.false_ne_true, hs]
  refine ⟨⟨?_, hsame⟩, hdeep, ?_⟩
  · intro heq hbecomes
    exact listOf_singleton_ne _ ((hdeep hbecomes).symm.trans heq.symm)
  · intro hnot rule limit
    rw [Options.settings, Options.settings, hsame hnot]

/-- A schema that says by a reference that the option list has one position. -/
def listByReference : Members Json :=
  [("$ref", .str "#/definitions/list"),
    ("definitions", .obj [("list", .obj [("type", .str "array"),
      ("items", .arr [.obj [("enum", .ofStrings ["always", "never"])]])])])]

/-- Inlining the reference at the top beforehand can change the normal form. -/
theorem normalize_resolve_ne_listByReference :
    normalize (resolve (.obj listByReference)).1 ≠ normalize (.obj listByReference) := by
  have hkept : normalize (resolve (.obj listByReference)).1 =
      (resolve (.obj listByReference)).1 := by
    cbv
  have hwrapped : normalize (.obj listByReference) =
      listOf [(resolve (.obj listByReference)).1] := by
    cbv
  rw [hkept, hwrapped]
  exact (listOf_singleton_ne _).symm

/-- The settings that are tried for it have a list of options in place of an option. -/
example :
    Options.settings { id := "semi", schema := .obj listByReference } 255 =
      [.str "error", .arr [.str "error", .arr [.str "always"]],
        .arr [.str "error", .arr [.str "never"]]] := by
  cbv

end LintSetup.Schema
