import LintSetup.Proofs.Json.Layout
import LintSetup.Proofs.Schema.Settled
import Mathlib.Logic.Relation

/-!
# What the issues of a schema say

Resolving looks at a schema along the references that are being followed, and the same reference may
be met on many ways and be followed on some of them only.  What it reports does not depend on these
ways.  It is a statement about the schema as it stands, and the references in it as a graph.

* `Refers` --- a text is the reference of an object in a value.
* `Leads` --- an edge of the graph: a local reference occurs in the object that another one names.
* `Issue.Holds` --- what an issue says of a schema.

An issue is true because there is a path from each reference that is being followed to the one at
hand (`holds_of_mem_issues_follow`).  That a cycle does not go unnoticed is the other direction, and
it is shown the other way round: where following a reference finds no cycle, none goes through that
reference, as one that did would go through the next reference too, which is followed with fewer
pending (`not_transGen_of_acyclic_follow`).  Both go by the number of references that are pending.
-/

namespace LintSetup.Schema

open Json (Occurs)
open Relation (TransGen)

variable {root : Json}

/-! ## The graph of references -/

/-- A text is the reference of an object that occurs in a value. -/
def Refers (v : Json) (r : String) : Prop :=
  ∃ members, Occurs (.obj members) v ∧ Members.get? members refKey = some (.str r)

/-- One reference leads to another: this one is local, and occurs in the object that the first one
names. -/
def Leads (root : Json) (r q : String) : Prop :=
  isLocal q = true ∧ ∃ members, target? root r = some members ∧ Refers (.obj members) q

theorem referenceOf_eq_some_iff {members : Members Json} {r : String} :
    referenceOf members = some r ↔ Members.get? members refKey = some (.str r) := by
  rw [referenceOf, Option.bind_eq_some_iff]
  constructor
  · rintro ⟨v, hv, hstr⟩
    cases v with
    | str s => rwa [← Option.some.inj hstr]
    | _ => cases hstr
  · exact fun h => ⟨.str r, h, rfl⟩

/-- The references of a value are those of the objects that occur in it. -/
theorem mem_references_iff {v : Json} {r : String} : r ∈ references v ↔ Refers v r := by
  constructor
  · intro h
    induction v using Json.inductionOn with
    | null => nomatch h
    | bool b => nomatch h
    | num n => nomatch h
    | str s => nomatch h
    | arr items ih =>
      rw [references] at h
      obtain ⟨v, hv, hr⟩ := mem_referencesItems.mp h
      obtain ⟨members, hoccurs, hget⟩ := ih v hv hr
      exact ⟨members, .item hv hoccurs, hget⟩
    | obj members ih =>
      rcases mem_references_obj.mp h with h | h
      · obtain ⟨m, hm, hr⟩ := mem_referencesMembers.mp h
        obtain ⟨members, hoccurs, hget⟩ := ih m hm hr
        exact ⟨members, .member hm hoccurs, hget⟩
      · exact ⟨members, .here, referenceOf_eq_some_iff.mp h⟩
  · rintro ⟨members, hoccurs, hget⟩
    exact references_subset_of_occurs hoccurs
      (mem_references_obj.mpr (.inr (referenceOf_eq_some_iff.mpr hget)))

/-- The references of an object that is named are references of the schema itself. -/
theorem Refers.of_target? {r q : String} {members : Members Json}
    (ht : target? root r = some members) (hq : Refers (.obj members) q) : Refers root q :=
  mem_references_iff.mp (references_target_subset ht (mem_references_iff.mpr hq))

theorem Leads.refers {r q : String} (h : Leads root r q) : Refers root q := by
  obtain ⟨-, members, ht, hq⟩ := h
  exact .of_target? ht hq

/-- A reference that leads back to itself is one of the schema. -/
theorem refers_of_transGen {r q : String} (h : TransGen (Leads root) r q) : Refers root q := by
  cases h with
  | single hedge => exact hedge.refers
  | tail _ hedge => exact hedge.refers

/-! ## Issues of a value -/

section Inline

variable (fetch : String → Members Json × List Issue)

/-- The issues met in a value are those that its references bring, one reference after another. -/
theorem issues_inline (v : Json) :
    (inline fetch v).2 = (references v).flatMap fun r => (fetch r).2 := by
  induction v using Json.inductionOn with
  | null => rfl
  | bool b => rfl
  | num n => rfl
  | str s => rfl
  | arr items ih =>
    have hitems : (inlineItems fetch items).2 =
        (referencesItems items).flatMap fun r => (fetch r).2 := by
      induction items with
      | nil => rfl
      | cons v rest ihrest =>
        rw [List.forall_mem_cons] at ih
        rw [inlineItems, referencesItems, List.flatMap_append, ← ih.1, ← ihrest ih.2]
    rw [references, ← hitems]
    rfl
  | obj members ih =>
    have hmembers : (inlineMembers fetch members).2 =
        (referencesMembers members).flatMap fun r => (fetch r).2 := by
      induction members with
      | nil => rfl
      | cons m rest ihrest =>
        rw [List.forall_mem_cons] at ih
        rw [inlineMembers, referencesMembers, List.flatMap_append, ← ih.1, ← ihrest ih.2]
    rw [references, List.flatMap_append, ← hmembers]
    cases hr : referenceOf members with
    | none =>
      rw [inline_obj_of_none fetch hr]
      exact (List.append_nil _).symm
    | some r =>
      rw [inline_obj_of_some fetch hr, Option.toList_some, List.flatMap_singleton]

end Inline

theorem mem_issues_resolve {s : Json} {issue : Issue} :
    issue ∈ (resolve s).2 ↔ ∃ r, Refers s r ∧ issue ∈ (follow s (references s) r).2 := by
  rw [resolve, issues_inline, List.mem_flatMap]
  simp only [mem_references_iff]

/-- The issues of a local reference that is followed are those of the references it leads to. -/
theorem mem_issues_follow {pending : List String} {r : String} {members : Members Json}
    (hpending : r ∈ pending) (ht : target? root r = some members) {issue : Issue} :
    issue ∈ (follow root pending r).2 ↔
      ∃ q, Refers (.obj members) q ∧ issue ∈ (follow root (without pending r) q).2 := by
  obtain ⟨members', hobj⟩ := exists_inline_obj (follow root (without pending r)) members
  rw [follow_of_target (isLocal_of_target? ht) hpending ht hobj, issues_inline, List.mem_flatMap]
  simp only [mem_references_iff]

/-! ## Issues are true -/

/-- What an issue says of a schema. -/
def Issue.Holds (root : Json) : Issue → Prop
  | .external r => Refers root r ∧ isLocal r = false
  | .unresolved r => Refers root r ∧ isLocal r = true ∧ target? root r = none
  | .cyclic r => TransGen (Leads root) r r

/-- What is reported when a reference is met while others are being followed is true, if each of
those leads to it. -/
theorem holds_of_mem_issues_follow {following : List String} (pending : List String)
    (hc : Complements root following pending) {r : String} (hr : Refers root r)
    (hpath : isLocal r = true → ∀ x ∈ following, TransGen (Leads root) x r) {issue : Issue}
    (h : issue ∈ (follow root pending r).2) : issue.Holds root := by
  cases hlocal : isLocal r with
  | false =>
    rw [follow_of_external hlocal] at h
    obtain rfl := List.mem_singleton.mp h
    exact ⟨hr, hlocal⟩
  | true =>
    by_cases hpending : r ∈ pending
    · cases ht : target? root r with
      | none =>
        rw [follow_of_unresolved hlocal hpending ht] at h
        obtain rfl := List.mem_singleton.mp h
        exact ⟨hr, hlocal, ht⟩
      | some members =>
        obtain ⟨q, hq, hissue⟩ := (mem_issues_follow hpending ht).mp h
        have hleads : isLocal q = true → Leads root r q := fun hq' => ⟨hq', members, ht, hq⟩
        refine holds_of_mem_issues_follow (without pending r) (hc.cons r) (.of_target? ht hq) ?_
          hissue
        intro hq' x hx
        rcases List.mem_cons.mp hx with rfl | hx
        · exact .single (hleads hq')
        · exact (hpath hlocal x hx).tail (hleads hq')
    · have hfollowing : r ∈ following :=
        not_not.mp fun hnot => hpending ((hc r (mem_references_iff.mpr hr)).mpr hnot)
      rw [follow_of_not_pending hlocal hpending] at h
      obtain rfl := List.mem_singleton.mp h
      exact hpath hlocal r hfollowing
termination_by pending.length
decreasing_by exact length_without_lt ‹_›

theorem holds_of_mem_issues {s : Json} {issue : Issue} (h : issue ∈ (resolve s).2) :
    issue.Holds s := by
  obtain ⟨r, hr, hissue⟩ := mem_issues_resolve.mp h
  exact holds_of_mem_issues_follow (references s) (complements_nil s) hr (by simp) hissue

/-! ## Nothing goes unnoticed -/

/-- Where following a reference finds no cycle, the reference does not lead back to itself. -/
theorem not_transGen_of_acyclic_follow (pending : List String) {r : String}
    (h : Acyclic (follow root pending r).2) : ¬ TransGen (Leads root) r r := by
  intro hcycle
  obtain ⟨q, hedge, hback⟩ := Relation.TransGen.head'_iff.mp hcycle
  have hcycle' : TransGen (Leads root) q q := .tail' hback hedge
  obtain ⟨-, members, ht, hq⟩ := hedge
  by_cases hpending : r ∈ pending
  · have hacyclic : Acyclic (follow root (without pending r) q).2 := fun x hx =>
      h x ((mem_issues_follow hpending ht).mpr ⟨q, hq, hx⟩)
    exact not_transGen_of_acyclic_follow (without pending r) hacyclic hcycle'
  · rw [follow_of_not_pending (isLocal_of_target? ht) hpending] at h
    exact h r List.mem_cons_self
termination_by pending.length
decreasing_by exact length_without_lt ‹_›

theorem exists_cyclic_of_transGen {s : Json} {r : String} (h : TransGen (Leads s) r r) :
    ∃ q, Issue.cyclic q ∈ (resolve s).2 := by
  by_contra hnone
  rw [not_exists] at hnone
  have hacyclic : Acyclic (follow s (references s) r).2 := fun q hq =>
    hnone q (mem_issues_resolve.mpr ⟨r, refers_of_transGen h, hq⟩)
  exact not_transGen_of_acyclic_follow (references s) hacyclic h

theorem mem_issues_external_iff {s : Json} {r : String} :
    Issue.external r ∈ (resolve s).2 ↔ Refers s r ∧ isLocal r = false := by
  constructor
  · exact holds_of_mem_issues
  · rintro ⟨hr, hlocal⟩
    refine mem_issues_resolve.mpr ⟨r, hr, ?_⟩
    rw [follow_of_external hlocal]
    exact List.mem_singleton_self _

theorem mem_issues_unresolved_iff {s : Json} {r : String} :
    Issue.unresolved r ∈ (resolve s).2 ↔
      Refers s r ∧ isLocal r = true ∧ target? s r = none := by
  constructor
  · exact holds_of_mem_issues
  · rintro ⟨hr, hlocal, ht⟩
    refine mem_issues_resolve.mpr ⟨r, hr, ?_⟩
    rw [follow_of_unresolved hlocal (mem_references_iff.mpr hr) ht]
    exact List.mem_singleton_self _

/-- Nothing is reported about a schema in which every reference names an object and does not lead
back to itself. -/
theorem issues_eq_nil_iff {s : Json} :
    (resolve s).2 = [] ↔ ∀ r, Refers s r →
      isLocal r = true ∧ (∃ members, target? s r = some members) ∧
        ¬ TransGen (Leads s) r r := by
  constructor
  · intro hnil r hr
    have hnone : ∀ issue : Issue, issue ∉ (resolve s).2 := by
      rw [hnil]
      exact fun _ => List.not_mem_nil
    have hlocal : isLocal r = true := by
      by_contra hexternal
      exact hnone _ (mem_issues_external_iff.mpr ⟨hr, Bool.eq_false_iff.mpr hexternal⟩)
    refine ⟨hlocal, ?_, fun hcycle => ?_⟩
    · cases ht : target? s r with
      | some members => exact ⟨members, rfl⟩
      | none => exact absurd (mem_issues_unresolved_iff.mpr ⟨hr, hlocal, ht⟩) (hnone _)
    · obtain ⟨q, hq⟩ := exists_cyclic_of_transGen hcycle
      exact hnone _ hq
  · intro hgood
    refine List.eq_nil_iff_forall_not_mem.mpr fun issue hissue => ?_
    have hholds := holds_of_mem_issues hissue
    cases issue with
    | external r => exact absurd (hgood r hholds.1).1 (Bool.eq_false_iff.mp hholds.2)
    | unresolved r =>
      obtain ⟨members, ht⟩ := (hgood r hholds.1).2.1
      exact nomatch hholds.2.2.symm.trans ht
    | cyclic r => exact (hgood r (refers_of_transGen hholds)).2.2 hholds

/-- **What resolving reports.**  For every schema, an external reference is reported exactly when the
schema has it, and a local one is reported as unresolved exactly when the schema has it and it names
no object.  Any reference that is reported as cyclic leads back to itself; and if there is one that
does, one is reported.  So nothing is reported exactly when every reference is local, names an object
and does not lead back to itself. -/
theorem issues_resolve (s : Json) :
    (∀ r, Issue.external r ∈ (resolve s).2 ↔ Refers s r ∧ isLocal r = false) ∧
      (∀ r, Issue.unresolved r ∈ (resolve s).2 ↔
        Refers s r ∧ isLocal r = true ∧ target? s r = none) ∧
      (∀ r, Issue.cyclic r ∈ (resolve s).2 → TransGen (Leads s) r r) ∧
      ((∃ r, TransGen (Leads s) r r) → ∃ r, Issue.cyclic r ∈ (resolve s).2) ∧
      ((resolve s).2 = [] ↔ ∀ r, Refers s r →
        isLocal r = true ∧ (∃ members, target? s r = some members) ∧
          ¬ TransGen (Leads s) r r) := by
  refine ⟨fun r => mem_issues_external_iff, fun r => mem_issues_unresolved_iff,
    fun r => holds_of_mem_issues, ?_, issues_eq_nil_iff⟩
  rintro ⟨r, hcycle⟩
  exact exists_cyclic_of_transGen hcycle

/-- A reference that only leads to a cycle is not reported, but those on the cycle are, as often as
they are met. -/
example :
    (resolve (.obj [("a", .obj [("$ref", .str "#/b")]), ("b", .obj [("$ref", .str "#/c")]),
      ("c", .obj [("$ref", .str "#/b")])])).2 =
      [.cyclic "#/b", .cyclic "#/c", .cyclic "#/b"] := by
  cbv

end LintSetup.Schema
