import LintSetup.Schema.Normal
import LintSetup.Proofs.Schema.Expansion

/-!
# Resolving comes to an end, and what it leaves

Resolving follows a reference into a copy of its target, which may be larger than what is being
resolved and may hold references of its own.  The procedure itself needs no measure to be stated:
it carries the references that are being followed, and a reference among them refers back to
itself.  `Inlines root following v w issues` is this procedure, one rule a step, and a derivation of
it is a finite run.  Every schema has exactly one, and `resolve` is its result: the references of a
schema are finitely many, and `resolve` counts those that are not being followed (`Complements`).

What is left of a schema has no references.

* `Json.Occurs` --- a value occurs in another; a reference occurs in a value exactly when an object
  does that has it (`Json.Occurs.references_subset`).
* `references_follow`, `references_inline` --- inlining leaves no references.
* `inline_of_references_eq_nil` --- where there are none, inlining does nothing.

So resolving again changes nothing and finds nothing wrong.  The normal form of a schema is a schema
of the option list, and it is its own normal form.
-/

namespace LintSetup

namespace Json

/-! ## Values in values -/

/-- A value occurs in another: it is that value, or it occurs in an item or a member of it. -/
inductive Occurs (w : Json) : Json → Prop
  | here : Occurs w w
  | item {items : List Json} {v : Json} (hv : v ∈ items) (h : Occurs w v) : Occurs w (.arr items)
  | member {members : Members Json} {k : String} {v : Json} (hv : (k, v) ∈ members)
    (h : Occurs w v) : Occurs w (.obj members)

theorem Occurs.trans {u v w : Json} (huv : Occurs u v) (hvw : Occurs v w) : Occurs u w := by
  induction hvw with
  | here => exact huv
  | item hv _ ih => exact .item hv ih
  | member hv _ ih => exact .member hv ih

theorem occurs_of_step? {v w : Json} {step : List Char} (h : v.step? step = some w) :
    Occurs w v := by
  cases v with
  | obj members => exact .member (Members.mem_of_get? h) .here
  | arr items =>
    obtain ⟨i, -, hi⟩ := Option.bind_eq_some_iff.mp h
    exact .item (List.mem_of_getElem? hi) .here
  | _ => simp [Json.step?] at h

/-- What a pointer names in a value occurs in it. -/
theorem occurs_of_at? {v w : Json} {pointer : List Char} (h : v.at? pointer = some w) :
    Occurs w v := by
  have hsteps : ∀ (steps : List (List Char)) (v : Json),
      steps.foldlM (fun v s => v.step? (unescapeStep s)) v = some w → Occurs w v := by
    intro steps
    induction steps with
    | nil => exact fun v h => Option.some.inj h ▸ .here
    | cons step rest ih =>
      intro v h
      rw [List.foldlM_cons] at h
      obtain ⟨u, hu, hrest⟩ := Option.bind_eq_some_iff.mp h
      exact (ih u hrest).trans (occurs_of_step? hu)
  unfold Json.at? at h
  split at h
  · exact Option.some.inj h ▸ .here
  · exact hsteps _ v h
  · exact absurd h (by simp)

end Json

namespace Schema

open Json (Occurs)

variable {root : Json}

/-! ## The references of a value -/

theorem mem_referencesItems {items : List Json} {r : String} :
    r ∈ referencesItems items ↔ ∃ v ∈ items, r ∈ references v := by
  induction items with
  | nil => simp [referencesItems]
  | cons v rest ih => simp [referencesItems, ih]

theorem mem_referencesMembers {members : Members Json} {r : String} :
    r ∈ referencesMembers members ↔ ∃ m ∈ members, r ∈ references m.2 := by
  induction members with
  | nil => simp [referencesMembers]
  | cons m rest ih => simp [referencesMembers, ih]

theorem mem_references_obj {members : Members Json} {r : String} :
    r ∈ references (.obj members) ↔
      r ∈ referencesMembers members ∨ referenceOf members = some r := by
  rw [references, List.mem_append, Option.mem_toList]

/-- The references of a value that occurs in another are references of that other value. -/
theorem references_subset_of_occurs {v w : Json} (h : Occurs w v) :
    references w ⊆ references v := by
  intro r hr
  induction h with
  | here => exact hr
  | item hv _ ih =>
    rw [references]
    exact mem_referencesItems.mpr ⟨_, hv, ih⟩
  | member hv _ ih => exact mem_references_obj.mpr (.inl (mem_referencesMembers.mpr ⟨_, hv, ih⟩))

/-- The object that a reference names occurs in its schema. -/
theorem occurs_of_target? {r : String} {members : Members Json}
    (h : target? root r = some members) : Occurs (.obj members) root := by
  unfold target? at h
  split at h
  · obtain ⟨v, hv, hmembers⟩ := Option.bind_eq_some_iff.mp h
    cases v with
    | obj ms => exact Option.some.inj hmembers ▸ Json.occurs_of_at? hv
    | _ => simp [Json.members?] at hmembers
  · exact absurd h (by simp)

/-! ## The procedure -/

mutual

/-- One run of the procedure on a value: what it leaves of the value and the issues that it meets,
while some references are being followed. -/
inductive Inlines (root : Json) : List String → Json → Json → List Issue → Prop
  | null {following : List String} : Inlines root following .null .null []
  | bool {following : List String} (b : Bool) : Inlines root following (.bool b) (.bool b) []
  | num {following : List String} (n : Number) : Inlines root following (.num n) (.num n) []
  | str {following : List String} (s : String) : Inlines root following (.str s) (.str s) []
  | arr {following : List String} {items items' : List Json} {issues : List Issue}
    (hitems : InlinesItems root following items items' issues) :
    Inlines root following (.arr items) (.arr items') issues
  | plain {following : List String} {members members' : Members Json} {issues : List Issue}
    (hmembers : InlinesMembers root following members members' issues)
    (hplain : referenceOf members' = none) :
    Inlines root following (.obj members) (.obj members') issues
  | reference {following : List String} {members members' target : Members Json} {r : String}
    {issues more : List Issue}
    (hmembers : InlinesMembers root following members members' issues)
    (hr : referenceOf members' = some r) (htarget : Fetches root following r target more) :
    Inlines root following (.obj members) (.obj (absorb members' target)) (issues ++ more)

/-- `Inlines` for the items of a list, one after another. -/
inductive InlinesItems (root : Json) : List String → List Json → List Json → List Issue → Prop
  | nil {following : List String} : InlinesItems root following [] [] []
  | cons {following : List String} {v w : Json} {rest rest' : List Json} {issues more : List Issue}
    (hv : Inlines root following v w issues)
    (hrest : InlinesItems root following rest rest' more) :
    InlinesItems root following (v :: rest) (w :: rest') (issues ++ more)

/-- `Inlines` for the values of members, one after another. -/
inductive InlinesMembers (root : Json) :
    List String → Members Json → Members Json → List Issue → Prop
  | nil {following : List String} : InlinesMembers root following [] [] []
  | cons {following : List String} {k : String} {v w : Json} {rest rest' : Members Json}
    {issues more : List Issue} (hv : Inlines root following v w issues)
    (hrest : InlinesMembers root following rest rest' more) :
    InlinesMembers root following ((k, v) :: rest) ((k, w) :: rest') (issues ++ more)

/-- The members that a reference stands for.  Its target is inlined while the reference counts as
being followed, and a reference that is being followed already refers back to itself. -/
inductive Fetches (root : Json) : List String → String → Members Json → List Issue → Prop
  | external {following : List String} {r : String} (hlocal : isLocal r = false) :
    Fetches root following r [] [.external r]
  | cyclic {following : List String} {r : String} (hlocal : isLocal r = true)
    (hr : r ∈ following) : Fetches root following r [] [.cyclic r]
  | unresolved {following : List String} {r : String} (hlocal : isLocal r = true)
    (hr : r ∉ following) (ht : target? root r = none) :
    Fetches root following r [] [.unresolved r]
  | target {following : List String} {r : String} {members members' : Members Json}
    {issues : List Issue} (hlocal : isLocal r = true) (hr : r ∉ following)
    (ht : target? root r = some members)
    (hmembers : Inlines root (r :: following) (.obj members) (.obj members') issues) :
    Fetches root following r members' issues

end

/-! ## The procedure has one result -/

/-- The references of a schema are those that are being followed and those that are pending. -/
def Complements (root : Json) (following pending : List String) : Prop :=
  ∀ r ∈ references root, r ∈ pending ↔ r ∉ following

theorem complements_nil (root : Json) : Complements root [] (references root) := by
  intro r hr
  simp [hr]

/-- Following a reference takes it off the pending ones. -/
theorem Complements.cons {following pending : List String}
    (h : Complements root following pending) (r : String) :
    Complements root (r :: following) (without pending r) := by
  intro r' hr'
  simp only [without, List.mem_filter, List.mem_cons, not_or, ne_eq, decide_not,
    Bool.not_eq_true', decide_eq_false_iff_not, h r' hr', and_comm]

/-- A reference that leads out of its schema stands for nothing. -/
theorem follow_of_external {pending : List String} {r : String} (hlocal : isLocal r = false) :
    follow root pending r = ([], [.external r]) := by
  rw [follow, if_neg (by simp [hlocal])]

/-- A local reference that names no object stands for nothing. -/
theorem follow_of_unresolved {pending : List String} {r : String} (hlocal : isLocal r = true)
    (hpending : r ∈ pending) (ht : target? root r = none) :
    follow root pending r = ([], [.unresolved r]) := by
  rw [follow, if_pos hlocal, dif_pos hpending]
  simp only [ht]

theorem references_target_subset {r : String} {members : Members Json}
    (h : target? root r = some members) : references (.obj members) ⊆ references root :=
  references_subset_of_occurs (occurs_of_target? h)

mutual

/-- Every run of the procedure comes to what inlining comes to. -/
theorem Inlines.inline_eq {following pending : List String}
    (hc : Complements root following pending) {v w : Json} {issues : List Issue}
    (hv : references v ⊆ references root) :
    Inlines root following v w issues → inline (follow root pending) v = (w, issues)
  | .null => rfl
  | .bool _ => rfl
  | .num _ => rfl
  | .str _ => rfl
  | .arr h => by
    rw [references] at hv
    rw [inline, h.inline_eq hc hv]
  | .plain h hplain => by
    have hmembers := h.inline_eq hc fun r hr => hv (mem_references_obj.mpr (.inl hr))
    have hsame := congrArg (fun result => referenceOf result.1) hmembers
    rw [referenceOf_inlineMembers, hplain] at hsame
    rw [inline_obj_of_none _ hsame, hmembers]
  | .reference h hr htarget => by
    have hmembers := h.inline_eq hc fun r hr => hv (mem_references_obj.mpr (.inl hr))
    have hsame := congrArg (fun result => referenceOf result.1) hmembers
    rw [referenceOf_inlineMembers, hr] at hsame
    rw [inline_obj_of_some _ hsame, hmembers,
      htarget.follow_eq hc (hv (mem_references_obj.mpr (.inr hsame)))]

theorem InlinesItems.inline_eq {following pending : List String}
    (hc : Complements root following pending) {vs ws : List Json} {issues : List Issue}
    (hv : referencesItems vs ⊆ references root) :
    InlinesItems root following vs ws issues →
      inlineItems (follow root pending) vs = (ws, issues)
  | .nil => rfl
  | .cons h hrest => by
    rw [referencesItems, List.append_subset] at hv
    rw [inlineItems, h.inline_eq hc hv.1, hrest.inline_eq hc hv.2]

theorem InlinesMembers.inline_eq {following pending : List String}
    (hc : Complements root following pending) {ms ns : Members Json} {issues : List Issue}
    (hv : referencesMembers ms ⊆ references root) :
    InlinesMembers root following ms ns issues →
      inlineMembers (follow root pending) ms = (ns, issues)
  | .nil => rfl
  | .cons h hrest => by
    rw [referencesMembers, List.append_subset] at hv
    rw [inlineMembers, h.inline_eq hc hv.1, hrest.inline_eq hc hv.2]

theorem Fetches.follow_eq {following pending : List String}
    (hc : Complements root following pending) {r : String} {members : Members Json}
    {issues : List Issue} (hr : r ∈ references root) :
    Fetches root following r members issues → follow root pending r = (members, issues)
  | .external hlocal => follow_of_external hlocal
  | .cyclic hlocal hfollowing =>
    follow_of_not_pending hlocal fun hpending => (hc r hr).mp hpending hfollowing
  | .unresolved hlocal hfollowing ht =>
    follow_of_unresolved hlocal ((hc r hr).mpr hfollowing) ht
  | .target hlocal hfollowing ht h => by
    have hmembers := h.inline_eq (hc.cons r) (references_target_subset ht)
    rw [follow_of_target hlocal ((hc r hr).mpr hfollowing) ht (congrArg Prod.fst hmembers),
      hmembers]

end

section Complete

variable {fetch : String → Members Json × List Issue} {following : List String}

mutual

/-- Where the procedure can fetch what each reference stands for, it can run. -/
theorem inlines_inline :
    ∀ v : Json, (∀ r ∈ references v, Fetches root following r (fetch r).1 (fetch r).2) →
      Inlines root following v (inline fetch v).1 (inline fetch v).2
  | .arr items, h => by
    rw [references] at h
    exact .arr (inlinesItems_inlineItems items h)
  | .obj members, h => by
    have hmembers := inlinesMembers_inlineMembers members fun r hr =>
      h r (mem_references_obj.mpr (.inl hr))
    have hsame := referenceOf_inlineMembers fetch members
    cases hr : referenceOf members with
    | none =>
      rw [inline_obj_of_none fetch hr]
      exact .plain hmembers (hsame.trans hr)
    | some r =>
      rw [inline_obj_of_some fetch hr]
      exact .reference hmembers (hsame.trans hr) (h r (mem_references_obj.mpr (.inr hr)))
  | .null, _ => .null
  | .bool b, _ => .bool b
  | .num n, _ => .num n
  | .str s, _ => .str s

theorem inlinesItems_inlineItems :
    ∀ vs : List Json,
      (∀ r ∈ referencesItems vs, Fetches root following r (fetch r).1 (fetch r).2) →
      InlinesItems root following vs (inlineItems fetch vs).1 (inlineItems fetch vs).2
  | [], _ => .nil
  | v :: rest, h => by
    rw [referencesItems, List.forall_mem_append] at h
    exact .cons (inlines_inline v h.1) (inlinesItems_inlineItems rest h.2)

theorem inlinesMembers_inlineMembers :
    ∀ ms : List (String × Json),
      (∀ r ∈ referencesMembers ms, Fetches root following r (fetch r).1 (fetch r).2) →
      InlinesMembers root following ms (inlineMembers fetch ms).1 (inlineMembers fetch ms).2
  | [], _ => .nil
  | (k, v) :: rest, h => by
    rw [referencesMembers, List.forall_mem_append] at h
    exact .cons (inlines_inline v h.1) (inlinesMembers_inlineMembers rest h.2)

end

end Complete

/-- The procedure can fetch what a reference of the schema stands for.  The measure is the number of
references that are not being followed: a target is inlined with one of them less. -/
theorem fetches_follow {following : List String} (pending : List String)
    (hc : Complements root following pending) {r : String} (hr : r ∈ references root) :
    Fetches root following r (follow root pending r).1 (follow root pending r).2 := by
  cases hlocal : isLocal r with
  | false =>
    rw [follow_of_external hlocal]
    exact .external hlocal
  | true =>
    by_cases hpending : r ∈ pending
    · have hfollowing := (hc r hr).mp hpending
      cases ht : target? root r with
      | none =>
        rw [follow_of_unresolved hlocal hpending ht]
        exact .unresolved hlocal hfollowing ht
      | some members =>
        obtain ⟨members', hobj⟩ :=
          exists_inline_obj (follow root (without pending r)) members
        rw [follow_of_target hlocal hpending ht hobj]
        refine .target hlocal hfollowing ht ?_
        rw [← hobj]
        exact inlines_inline (.obj members) fun r' hr' =>
          fetches_follow (without pending r) (hc.cons r) (references_target_subset ht hr')
    · rw [follow_of_not_pending hlocal hpending]
      exact .cyclic hlocal (not_not.mp fun h => hpending ((hc r hr).mpr h))
termination_by pending.length
decreasing_by exact length_without_lt ‹_›

/-- Resolving is the one run that the procedure has on a schema. -/
theorem inlines_iff_eq_resolve (s w : Json) (issues : List Issue) :
    Inlines s [] s w issues ↔ (w, issues) = resolve s := by
  constructor
  · exact fun h => (h.inline_eq (complements_nil s) (List.Subset.refl _)).symm
  · intro h
    have hrun := inlines_inline s fun r hr => fetches_follow (references s) (complements_nil s) hr
    rwa [← resolve, ← h] at hrun

/-! ## What is left has no references -/

theorem referencesMembers_eq_nil_iff {members : Members Json} :
    referencesMembers members = [] ↔ ∀ m ∈ members, references m.2 = [] := by
  induction members with
  | nil => simp [referencesMembers]
  | cons m rest ih => simp [referencesMembers, ih]

theorem references_obj_eq_nil_iff {members : Members Json} :
    references (.obj members) = [] ↔
      referencesMembers members = [] ∧ referenceOf members = none := by
  rw [references, List.append_eq_nil_iff, Option.toList_eq_nil_iff]

/-- In a value without references no object has one. -/
theorem referenceOf_eq_none_of_occurs {v : Json} (hv : references v = [])
    {members : Members Json} (h : Occurs (.obj members) v) : referenceOf members = none := by
  have hsub := references_subset_of_occurs h
  rw [hv, List.subset_nil] at hsub
  exact (references_obj_eq_nil_iff.mp hsub).2

/-- Members that are added where they are lacking come from one side or the other. -/
theorem mem_absorb {members target : Members Json} {m : String × Json}
    (h : m ∈ absorb members target) : m ∈ members ∨ m ∈ target := by
  have hfold : ∀ (target members : Members Json),
      m ∈ target.foldl (fun ms n => Members.setNew ms n.1 n.2) members →
        m ∈ members ∨ m ∈ target := by
    intro target
    induction target with
    | nil => exact fun members h => .inl h
    | cons n rest ih =>
      intro members h
      rcases ih _ h with h | h
      · change m ∈ Members.setNew members n.1 n.2 at h
        rw [Members.setNew] at h
        split at h
        · exact .inl h
        · rcases List.mem_append.mp h with h | h
          · exact .inl h
          · exact .inr (List.mem_cons.mpr (.inl (List.mem_singleton.mp h)))
      · exact .inr (List.mem_cons_of_mem n h)
  exact hfold target members (List.mem_filter.mp h).1

/-- An object that has absorbed what its reference stands for has no reference. -/
theorem referenceOf_absorb (members target : Members Json) :
    referenceOf (absorb members target) = none := by
  rw [referenceOf, absorb, Members.get?_erase_self, Option.bind_none]

section Clean

variable {fetch : String → Members Json × List Issue}

mutual

/-- Inlining leaves no references while nothing that is fetched has any. -/
theorem references_inline (hfetch : ∀ r, referencesMembers (fetch r).1 = []) :
    ∀ v : Json, references (inline fetch v).1 = []
  | .arr items => by
    rw [inline, references]
    exact referencesItems_inlineItems hfetch items
  | .obj members => by
    have hmembers := referencesMembers_inlineMembers hfetch members
    cases hr : referenceOf members with
    | none =>
      rw [inline_obj_of_none fetch hr, references_obj_eq_nil_iff, referenceOf_inlineMembers]
      exact ⟨hmembers, hr⟩
    | some r =>
      rw [inline_obj_of_some fetch hr, references_obj_eq_nil_iff]
      refine ⟨referencesMembers_eq_nil_iff.mpr fun m hm => ?_, referenceOf_absorb _ _⟩
      rcases mem_absorb hm with hm | hm
      · exact referencesMembers_eq_nil_iff.mp hmembers m hm
      · exact referencesMembers_eq_nil_iff.mp (hfetch r) m hm
  | .null => rfl
  | .bool _ => rfl
  | .num _ => rfl
  | .str _ => rfl

theorem referencesItems_inlineItems (hfetch : ∀ r, referencesMembers (fetch r).1 = []) :
    ∀ items : List Json, referencesItems (inlineItems fetch items).1 = []
  | [] => rfl
  | v :: rest => by
    rw [inlineItems, referencesItems, references_inline hfetch v,
      referencesItems_inlineItems hfetch rest, List.append_nil]

theorem referencesMembers_inlineMembers (hfetch : ∀ r, referencesMembers (fetch r).1 = []) :
    ∀ members : List (String × Json), referencesMembers (inlineMembers fetch members).1 = []
  | [] => rfl
  | (k, v) :: rest => by
    rw [inlineMembers, referencesMembers, references_inline hfetch v,
      referencesMembers_inlineMembers hfetch rest, List.append_nil]

end

end Clean

/-- What a reference stands for has no references. -/
theorem references_follow (pending : List String) (r : String) :
    referencesMembers (follow root pending r).1 = [] := by
  cases ht : target? root r with
  | none =>
    rw [follow_of_nowhere ht]
    rfl
  | some members =>
    have hlocal := isLocal_of_target? ht
    by_cases hpending : r ∈ pending
    · obtain ⟨members', hobj⟩ :=
        exists_inline_obj (follow root (without pending r)) members
      have hclean := references_inline
        (fun r' => references_follow (without pending r) r') (.obj members)
      rw [hobj] at hclean
      rw [follow_of_target hlocal hpending ht hobj]
      exact (references_obj_eq_nil_iff.mp hclean).1
    · rw [follow_of_not_pending hlocal hpending]
      rfl
termination_by pending.length
decreasing_by exact length_without_lt ‹_›

theorem references_resolve (s : Json) : references (resolve s).1 = [] :=
  references_inline (fun r => references_follow (references s) r) s

/-! ## Where there is no reference, nothing happens -/

mutual

/-- A value without references is inlined as it is. -/
theorem inline_of_references_eq_nil (fetch : String → Members Json × List Issue) :
    ∀ v : Json, references v = [] → inline fetch v = (v, [])
  | .arr items, h => by
    rw [references] at h
    rw [inline, inlineItems_of_references_eq_nil fetch items h]
  | .obj members, h => by
    obtain ⟨hmembers, hr⟩ := references_obj_eq_nil_iff.mp h
    rw [inline_obj_of_none fetch hr, inlineMembers_of_references_eq_nil fetch members hmembers]
  | .null, _ => rfl
  | .bool _, _ => rfl
  | .num _, _ => rfl
  | .str _, _ => rfl

theorem inlineItems_of_references_eq_nil (fetch : String → Members Json × List Issue) :
    ∀ items : List Json, referencesItems items = [] → inlineItems fetch items = (items, [])
  | [], _ => rfl
  | v :: rest, h => by
    obtain ⟨hv, hrest⟩ := List.append_eq_nil_iff.mp h
    rw [inlineItems, inline_of_references_eq_nil fetch v hv,
      inlineItems_of_references_eq_nil fetch rest hrest]
    rfl

theorem inlineMembers_of_references_eq_nil (fetch : String → Members Json × List Issue) :
    ∀ members : List (String × Json), referencesMembers members = [] →
      inlineMembers fetch members = (members, [])
  | [], _ => rfl
  | (k, v) :: rest, h => by
    obtain ⟨hv, hrest⟩ := List.append_eq_nil_iff.mp h
    rw [inlineMembers, inline_of_references_eq_nil fetch v hv,
      inlineMembers_of_references_eq_nil fetch rest hrest]
    rfl

end

/-- A schema without references is resolved as it is. -/
theorem resolve_of_references_eq_nil {s : Json} (h : references s = []) :
    resolve s = (s, []) :=
  inline_of_references_eq_nil _ s h

/-! ## The normal form -/

/-- An object describes the option list when its type is `array` or it is a choice. -/
theorem describesList_iff {members : Members Json} :
    describesList members = true ↔
      Members.get? members "type" = some (.str "array") ∨
        ∃ key ∈ alternationKeys, Members.has members key = true := by
  have htype : (Members.get? members "type").bind Json.str? = some "array" ↔
      Members.get? members "type" = some (.str "array") := by
    constructor
    · intro h
      obtain ⟨v, hv, hs⟩ := Option.bind_eq_some_iff.mp h
      cases v with
      | str s => rw [hv, Option.some.inj hs]
      | _ => simp [Json.str?] at hs
    · intro h
      rw [h]
      rfl
  rw [describesList, Bool.or_eq_true, beq_iff_eq, List.any_eq_true, htype]

theorem get?_inlineMembers (fetch : String → Members Json × List Issue) (members : Members Json)
    (key : String) :
    Members.get? (inlineMembers fetch members).1 key =
      (Members.get? members key).map fun v => (inline fetch v).1 := by
  induction members with
  | nil => rfl
  | cons m rest ih =>
    obtain ⟨k, v⟩ := m
    rw [inlineMembers, Members.get?_cons, Members.get?_cons]
    split
    · rfl
    · exact ih

/-- What an object absorbs is read only where the object itself says nothing. -/
theorem get?_absorb (members target : Members Json) {key : String} (hkey : key ≠ refKey) :
    Members.get? (absorb members target) key =
      (Members.get? members key).or (Members.get? target key) := by
  rw [absorb, Members.get?_erase_ne _ hkey]
  exact Members.get?_foldl_setNew target members key

/-- Inlining the members of an object does not change whether it describes the option list. -/
theorem describesList_inlineMembers (fetch : String → Members Json × List Issue)
    (members : Members Json) :
    describesList (inlineMembers fetch members).1 = describesList members := by
  have htype : (Members.get? (inlineMembers fetch members).1 "type").bind Json.str? =
      (Members.get? members "type").bind Json.str? := by
    rw [get?_inlineMembers, Option.bind_map]
    exact congrArg _ (funext fun v => str?_inline fetch v)
  have hkeys : Members.has (inlineMembers fetch members).1 = Members.has members :=
    funext fun key => Members.has_eq_of_keys_eq (keys_inlineMembers fetch members) key
  rw [describesList, describesList, htype, hkeys]

/-- Members that make an object a schema of the option list when it absorbs them: they bring the
type `array` to an object without a type, or they make it a choice. -/
def LendsList (members target : Members Json) : Prop :=
  (Members.get? members "type" = none ∧ Members.get? target "type" = some (.str "array")) ∨
    ∃ key ∈ alternationKeys, Members.has target key = true

/-- An object that has absorbed members describes the option list if it did before, or if these
members make it. -/
theorem describesList_absorb_iff (members target : Members Json) :
    describesList (absorb members target) = true ↔
      describesList members = true ∨ LendsList members target := by
  have hkey : ∀ key ∈ alternationKeys, key ≠ refKey := by decide
  have halternation : (∃ key ∈ alternationKeys, Members.has (absorb members target) key = true) ↔
      (∃ key ∈ alternationKeys, Members.has members key = true) ∨
        ∃ key ∈ alternationKeys, Members.has target key = true := by
    rw [← exists_or]
    refine exists_congr fun key => ?_
    rw [← and_or_left]
    refine and_congr_right fun hmem => ?_
    rw [Members.has, get?_absorb members target (hkey key hmem), Option.isSome_or,
      Bool.or_eq_true]
    rfl
  rw [describesList_iff, describesList_iff, halternation,
    get?_absorb members target (by decide), Option.or_eq_some_iff, LendsList]
  exact or_or_or_comm

/-- An object that describes the option list still does when it is inlined. -/
theorem exists_inline_describesList (fetch : String → Members Json × List Issue)
    {members : Members Json} (h : describesList members = true) :
    ∃ members', (inline fetch (.obj members)).1 = .obj members' ∧
      describesList members' = true := by
  have hmembers := (describesList_inlineMembers fetch members).trans h
  cases hr : referenceOf members with
  | none =>
    rw [inline_obj_of_none fetch hr]
    exact ⟨_, rfl, hmembers⟩
  | some r =>
    rw [inline_obj_of_some fetch hr]
    exact ⟨_, rfl, (describesList_absorb_iff _ _).mpr (.inl hmembers)⟩

theorem describesList_listOf (positions : List Json) :
    describesList [("type", .str "array"), ("items", .arr positions)] = true := rfl

/-- A normal form describes the option list and has no references. -/
theorem exists_normalize_eq (s : Json) :
    ∃ members, normalize s = .obj members ∧ describesList members = true ∧
      references (.obj members) = [] := by
  have hresolved : ∀ members, describesList members = true →
      ∃ members', (resolve (.obj members)).1 = .obj members' ∧ describesList members' = true ∧
        references (.obj members') = [] := by
    intro members h
    obtain ⟨members', hobj, hlist⟩ := exists_inline_describesList _ h
    exact ⟨members', hobj, hlist, hobj ▸ references_resolve (.obj members)⟩
  cases s with
  | obj members =>
    rw [normalize]
    split
    · next h => exact hresolved members h
    · refine ⟨_, rfl, describesList_listOf _, ?_⟩
      have hitem := references_resolve (.obj members)
      simp [references, referencesMembers, referencesItems, hitem, referenceOf, refKey,
        Members.get?]
  | arr items => exact hresolved _ (describesList_listOf items)
  | _ => exact hresolved _ (describesList_listOf [])

/-- A schema of the option list without references is its own normal form. -/
theorem normalize_eq_self {members : Members Json} (h : describesList members = true)
    (hclean : references (.obj members) = []) : normalize (.obj members) = .obj members := by
  rw [normalize, if_pos h, resolve_of_references_eq_nil hclean]

/-- **Resolving comes to an end and leaves nothing to resolve.**  On every schema the procedure has
exactly one run, and that is what resolving comes to.  No object in what it leaves has a reference;
so resolving again changes nothing and meets no issue.  The normal form of a schema is a schema of
the option list, and normalizing it again changes nothing. -/
theorem resolve_settles (s : Json) :
    (∀ w issues, Inlines s [] s w issues ↔ (w, issues) = resolve s) ∧
      (∀ members, Occurs (.obj members) (resolve s).1 → referenceOf members = none) ∧
      resolve (resolve s).1 = ((resolve s).1, []) ∧
      normalize (normalize s) = normalize s ∧
      ∃ members, normalize s = .obj members ∧
        (Members.get? members "type" = some (.str "array") ∨
          ∃ key ∈ ["anyOf", "oneOf", "allOf"], Members.has members key = true) := by
  obtain ⟨members, hobj, hlist, hclean⟩ := exists_normalize_eq s
  refine ⟨inlines_iff_eq_resolve s,
    fun _ h => referenceOf_eq_none_of_occurs (references_resolve s) h,
    resolve_of_references_eq_nil (references_resolve s), ?_,
    members, hobj, describesList_iff.mp hlist⟩
  rw [hobj, normalize_eq_self hlist hclean]

/-- Two references that lead to each other. -/
example :
    resolve (.obj [("a", .obj [("$ref", .str "#/b")]),
        ("b", .obj [("$ref", .str "#/a"), ("x", .null)])]) =
      (.obj [("a", .obj [("x", .null)]), ("b", .obj [("x", .null)])],
        [.cyclic "#/b", .cyclic "#/a"]) := by
  cbv

end Schema
end LintSetup
