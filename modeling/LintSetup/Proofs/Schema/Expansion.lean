import LintSetup.Schema.Reference
import LintSetup.Proofs.Json.Proper

/-!
# What resolving a schema comes to

Resolving works from the inside out and looks targets up while a list of pending references changes
under it.  What it comes to can be said without either: `Expands root v w` says that `w` is the
value `v` with every reference in it replaced by what it stands for in `root`.  Its rules mention no
order and no context.

* Lists and objects without a reference are expanded part by part.
* An object with a reference is its other members, expanded, and after them the members of the
  expanded target whose keys it lacks.  Its own members win, and the key of the reference counts as
  one of them.
* The target of a reference is looked up in `root` as it was given.  A reference that names no
  object in it adds nothing.

A value has at most one expansion (`Expands.unique`).  A schema in which no reference was found to
refer back to itself has one, and resolving finds it (`expands_iff_eq_resolve`).
-/

namespace LintSetup.Schema

variable {root : Json}

mutual

/-- A value with the references in it replaced by what they stand for in a schema. -/
inductive Expands (root : Json) : Json → Json → Prop
  | null : Expands root .null .null
  | bool (b : Bool) : Expands root (.bool b) (.bool b)
  | num (n : Number) : Expands root (.num n) (.num n)
  | str (s : String) : Expands root (.str s) (.str s)
  | arr {items items' : List Json} (hitems : ExpandsItems root items items') :
    Expands root (.arr items) (.arr items')
  | plain {members members' : Members Json} (hplain : referenceOf members = none)
    (hmembers : ExpandsMembers root members members') :
    Expands root (.obj members) (.obj members')
  | reference {members own target : Members Json} {r : String}
    (hr : referenceOf members = some r)
    (hown : ExpandsMembers root (Members.erase members refKey) own)
    (htarget : ExpandsTarget root r target) :
    Expands root (.obj members)
      (.obj (own ++ target.filter fun m => !Members.has members m.1))

/-- `Expands` for every item of a list. -/
inductive ExpandsItems (root : Json) : List Json → List Json → Prop
  | nil : ExpandsItems root [] []
  | cons {v w : Json} {rest rest' : List Json} (hv : Expands root v w)
    (hrest : ExpandsItems root rest rest') : ExpandsItems root (v :: rest) (w :: rest')

/-- `Expands` for the value of every member. -/
inductive ExpandsMembers (root : Json) : Members Json → Members Json → Prop
  | nil : ExpandsMembers root [] []
  | cons {k : String} {v w : Json} {rest rest' : Members Json} (hv : Expands root v w)
    (hrest : ExpandsMembers root rest rest') :
    ExpandsMembers root ((k, v) :: rest) ((k, w) :: rest')

/-- The members that a reference stands for: those of its target, expanded. -/
inductive ExpandsTarget (root : Json) : String → Members Json → Prop
  | named {r : String} {members members' : Members Json} (hr : target? root r = some members)
    (hmembers : Expands root (.obj members) (.obj members')) : ExpandsTarget root r members'
  | nowhere {r : String} (hr : target? root r = none) : ExpandsTarget root r []

end

/-! ## A value has at most one expansion -/

mutual

theorem Expands.unique {v a b : Json} : Expands root v a → Expands root v b → a = b
  | .null, .null => rfl
  | .bool _, .bool _ => rfl
  | .num _, .num _ => rfl
  | .str _, .str _ => rfl
  | .arr ha, .arr hb => congrArg Json.arr (ha.unique hb)
  | .plain _ ha, .plain _ hb => congrArg Json.obj (ha.unique hb)
  | .plain ha _, .reference hb _ _ => absurd (ha.symm.trans hb) (by simp)
  | .reference ha _ _, .plain hb _ => absurd (hb.symm.trans ha) (by simp)
  | .reference ha ha' ha'', .reference hb hb' hb'' => by
    obtain rfl := Option.some.inj (ha.symm.trans hb)
    rw [ha'.unique hb', ha''.unique hb'']
termination_by structural h => h

theorem ExpandsItems.unique {vs as bs : List Json} :
    ExpandsItems root vs as → ExpandsItems root vs bs → as = bs
  | .nil, .nil => rfl
  | .cons ha ha', .cons hb hb' => by rw [ha.unique hb, ha'.unique hb']
termination_by structural h => h

theorem ExpandsMembers.unique {ms as bs : Members Json} :
    ExpandsMembers root ms as → ExpandsMembers root ms bs → as = bs
  | .nil, .nil => rfl
  | .cons ha ha', .cons hb hb' => by rw [ha.unique hb, ha'.unique hb']
termination_by structural h => h

theorem ExpandsTarget.unique {r : String} {as bs : Members Json} :
    ExpandsTarget root r as → ExpandsTarget root r bs → as = bs
  | .named ha ha', .named hb hb' => by
    obtain rfl := Option.some.inj (ha.symm.trans hb)
    exact Json.obj.inj (ha'.unique hb')
  | .named ha _, .nowhere hb => absurd (hb.symm.trans ha) (by simp)
  | .nowhere ha, .named hb _ => absurd (ha.symm.trans hb) (by simp)
  | .nowhere _, .nowhere _ => rfl
termination_by structural h => h

end

/-! ## Inlining, part by part -/

/-- No reference was found to refer back to itself. -/
def Acyclic (issues : List Issue) : Prop := ∀ r, Issue.cyclic r ∉ issues

@[simp] theorem acyclic_append {issues more : List Issue} :
    Acyclic (issues ++ more) ↔ Acyclic issues ∧ Acyclic more := by
  simp [Acyclic, forall_and]

section Inline

variable (fetch : String → Members Json × List Issue)

/-- Inlining keeps the keys. -/
@[simp] theorem keys_inlineMembers (members : Members Json) :
    Members.keys (inlineMembers fetch members).1 = Members.keys members := by
  induction members with
  | nil => rfl
  | cons m rest ih => exact congrArg (m.1 :: ·) ih

/-- Inlining neither makes nor loses a text. -/
theorem str?_inline (v : Json) : (inline fetch v).1.str? = v.str? := by
  cases v with
  | obj members =>
    simp only [inline]
    split <;> rfl
  | _ => rfl

/-- Inlining keeps the reference of an object. -/
theorem referenceOf_inlineMembers (members : Members Json) :
    referenceOf (inlineMembers fetch members).1 = referenceOf members := by
  induction members with
  | nil => rfl
  | cons m rest ih =>
    obtain ⟨k, v⟩ := m
    rw [referenceOf, referenceOf, inlineMembers, Members.get?_cons, Members.get?_cons]
    split
    · exact str?_inline fetch v
    · exact ih

/-- The inlined object of members without a reference. -/
theorem inline_obj_of_none {members : Members Json} (h : referenceOf members = none) :
    inline fetch (.obj members) =
      (.obj (inlineMembers fetch members).1, (inlineMembers fetch members).2) := by
  simp only [inline]
  split
  · rfl
  · next hr => rw [referenceOf_inlineMembers, h] at hr; exact absurd hr (by simp)

/-- The inlined object of members with a reference. -/
theorem inline_obj_of_some {members : Members Json} {r : String}
    (h : referenceOf members = some r) :
    inline fetch (.obj members) =
      (.obj (absorb (inlineMembers fetch members).1 (fetch r).1),
        (inlineMembers fetch members).2 ++ (fetch r).2) := by
  simp only [inline]
  split
  · next hr => rw [referenceOf_inlineMembers, h] at hr; exact absurd hr (by simp)
  · next r' hr =>
    rw [referenceOf_inlineMembers, h] at hr
    rw [Option.some.inj hr]

end Inline

/-- An object with a reference has its key. -/
theorem has_refKey {members : Members Json} {r : String} (h : referenceOf members = some r) :
    Members.has members refKey = true := by
  obtain ⟨v, hv, -⟩ := Option.bind_eq_some_iff.mp h
  rw [Members.has, hv, Option.isSome_some]

/-- What an object with a reference absorbs comes after its other members. -/
theorem absorb_eq {members target : Members Json} (hkey : Members.has members refKey = true)
    (htarget : (Members.keys target).Nodup) :
    absorb members target =
      Members.erase members refKey ++ target.filter fun m => !Members.has members m.1 := by
  have hnew : refKey ∉ Members.keys (target.filter fun m => !Members.has members m.1) := by
    intro hmem
    obtain ⟨m, hm, hmkey⟩ := List.mem_map.mp hmem
    have hlacks := (List.mem_filter.mp hm).2
    rw [hmkey, hkey] at hlacks
    exact absurd hlacks (by simp)
  rw [absorb, Members.foldl_setNew_eq htarget, Members.erase_append, Members.erase_eq_self hnew]

/-! ## Resolving makes proper values -/

/-- Absorbing repeats no key. -/
theorem proper_absorb {members target : Members Json}
    (hkey : Members.has members refKey = true) (hmembers : (Json.obj members).Proper)
    (htarget : (Json.obj target).Proper) : (Json.obj (absorb members target)).Proper := by
  rw [Json.proper_obj] at hmembers htarget ⊢
  rw [absorb_eq hkey htarget.1]
  refine ⟨?_, fun m hm => ?_⟩
  · rw [Members.keys_append, List.nodup_append]
    refine ⟨Members.nodup_keys_filter hmembers.1 _, Members.nodup_keys_filter htarget.1 _, ?_⟩
    rintro _ hown _ hnew rfl
    obtain ⟨m, hm, rfl⟩ := List.mem_map.mp hown
    obtain ⟨n, hn, hmn⟩ := List.mem_map.mp hnew
    have hlacks := (List.mem_filter.mp hn).2
    rw [hmn, Bool.not_eq_true', Members.has_eq_false_iff] at hlacks
    exact hlacks (List.mem_map_of_mem (List.mem_filter.mp hm).1)
  · rcases List.mem_append.mp hm with hm | hm
    · exact hmembers.2 m (List.mem_filter.mp hm).1
    · exact htarget.2 m (List.mem_filter.mp hm).1

section Proper

variable {fetch : String → Members Json × List Issue}

mutual

/-- Inlining keeps a value proper while what every reference stands for is proper. -/
theorem proper_inline (hfetch : ∀ r, (Json.obj (fetch r).1).Proper) :
    ∀ v : Json, v.Proper → (inline fetch v).1.Proper
  | .arr items, h => Json.proper_arr.mpr (proper_inlineItems hfetch items (Json.proper_arr.mp h))
  | .obj members, h => by
    obtain ⟨hkeys, hvalues⟩ := Json.proper_obj.mp h
    have hmembers : (Json.obj (inlineMembers fetch members).1).Proper := by
      rw [Json.proper_obj, keys_inlineMembers]
      exact ⟨hkeys, proper_inlineMembers hfetch members hvalues⟩
    cases hr : referenceOf members with
    | none =>
      rw [inline_obj_of_none fetch hr]
      exact hmembers
    | some r =>
      rw [inline_obj_of_some fetch hr]
      refine proper_absorb ?_ hmembers (hfetch r)
      rw [Members.has_eq_of_keys_eq (keys_inlineMembers fetch members)]
      exact has_refKey hr
  | .null, _ => trivial
  | .bool _, _ => trivial
  | .num _, _ => trivial
  | .str _, _ => trivial

theorem proper_inlineItems (hfetch : ∀ r, (Json.obj (fetch r).1).Proper) :
    ∀ items : List Json, (∀ v ∈ items, v.Proper) → ∀ v ∈ (inlineItems fetch items).1, v.Proper
  | [], _ => by simp [inlineItems]
  | v :: rest, h => by
    rw [List.forall_mem_cons] at h
    rw [inlineItems, List.forall_mem_cons]
    exact ⟨proper_inline hfetch v h.1, proper_inlineItems hfetch rest h.2⟩

theorem proper_inlineMembers (hfetch : ∀ r, (Json.obj (fetch r).1).Proper) :
    ∀ members : List (String × Json), (∀ m ∈ members, m.2.Proper) →
      ∀ m ∈ (inlineMembers fetch members).1, m.2.Proper
  | [], _ => by simp [inlineMembers]
  | (k, v) :: rest, h => by
    rw [List.forall_mem_cons] at h
    rw [inlineMembers, List.forall_mem_cons]
    exact ⟨proper_inline hfetch v h.1, proper_inlineMembers hfetch rest h.2⟩

end

end Proper

/-- An object that a reference names in a proper schema is proper. -/
theorem proper_of_target? (hroot : root.Proper) {r : String} {members : Members Json}
    (h : target? root r = some members) : (Json.obj members).Proper := by
  unfold target? at h
  split at h
  · obtain ⟨v, hv, hmembers⟩ := Option.bind_eq_some_iff.mp h
    cases v with
    | obj ms => exact Option.some.inj hmembers ▸ hroot.at? hv
    | _ => simp [Json.members?] at hmembers
  · exact absurd h (by simp)

/-- Inlining leaves an object an object. -/
theorem exists_inline_obj (fetch : String → Members Json × List Issue) (members : Members Json) :
    ∃ members', (inline fetch (.obj members)).1 = .obj members' := by
  cases hr : referenceOf members with
  | none => exact ⟨_, congrArg Prod.fst (inline_obj_of_none fetch hr)⟩
  | some r => exact ⟨_, congrArg Prod.fst (inline_obj_of_some fetch hr)⟩

/-! ## Inlining expands -/

/-- Expanding the members of an object without one of them. -/
theorem ExpandsMembers.erase {members members' : Members Json}
    (h : ExpandsMembers root members members') (key : String) :
    ExpandsMembers root (Members.erase members key) (Members.erase members' key) := by
  induction members generalizing members' with
  | nil =>
    cases h
    exact .nil
  | cons m rest ih =>
    cases h with
    | cons hv hrest =>
      rw [Members.erase_cons, Members.erase_cons]
      split
      · exact ih hrest
      · exact .cons hv (ih hrest)

section Expands

variable {fetch : String → Members Json × List Issue}

mutual

/-- Inlining with expanded targets expands a value. -/
theorem expands_inline (hkeys : ∀ r, (Members.keys (fetch r).1).Nodup)
    (hfetch : ∀ r, Acyclic (fetch r).2 → ExpandsTarget root r (fetch r).1) :
    ∀ v : Json, Acyclic (inline fetch v).2 → Expands root v (inline fetch v).1
  | .arr items, h => .arr (expandsItems_inlineItems hkeys hfetch items h)
  | .obj members, h => by
    cases hr : referenceOf members with
    | none =>
      rw [inline_obj_of_none fetch hr] at h ⊢
      exact .plain hr (expandsMembers_inlineMembers hkeys hfetch members h)
    | some r =>
      rw [inline_obj_of_some fetch hr, acyclic_append] at h
      have hsame := Members.has_eq_of_keys_eq (keys_inlineMembers fetch members)
      have hkey := has_refKey hr
      rw [← hsame] at hkey
      rw [inline_obj_of_some fetch hr, absorb_eq hkey (hkeys r)]
      simp only [hsame]
      exact .reference hr
        ((expandsMembers_inlineMembers hkeys hfetch members h.1).erase refKey) (hfetch r h.2)
  | .null, _ => .null
  | .bool b, _ => .bool b
  | .num n, _ => .num n
  | .str s, _ => .str s

theorem expandsItems_inlineItems (hkeys : ∀ r, (Members.keys (fetch r).1).Nodup)
    (hfetch : ∀ r, Acyclic (fetch r).2 → ExpandsTarget root r (fetch r).1) :
    ∀ items : List Json, Acyclic (inlineItems fetch items).2 →
      ExpandsItems root items (inlineItems fetch items).1
  | [], _ => .nil
  | v :: rest, h => by
    rw [inlineItems, acyclic_append] at h
    exact .cons (expands_inline hkeys hfetch v h.1)
      (expandsItems_inlineItems hkeys hfetch rest h.2)

theorem expandsMembers_inlineMembers (hkeys : ∀ r, (Members.keys (fetch r).1).Nodup)
    (hfetch : ∀ r, Acyclic (fetch r).2 → ExpandsTarget root r (fetch r).1) :
    ∀ members : List (String × Json), Acyclic (inlineMembers fetch members).2 →
      ExpandsMembers root members (inlineMembers fetch members).1
  | [], _ => .nil
  | (k, v) :: rest, h => by
    rw [inlineMembers, acyclic_append] at h
    exact .cons (expands_inline hkeys hfetch v h.1)
      (expandsMembers_inlineMembers hkeys hfetch rest h.2)

end

end Expands

/-! ## Following a reference -/

/-- A reference that is followed stands for the members of its inlined target. -/
theorem follow_of_target {pending : List String} {r : String} {members members' : Members Json}
    (hlocal : isLocal r = true) (hpending : r ∈ pending) (ht : target? root r = some members)
    (hobj : (inline (follow root (without pending r)) (.obj members)).1 = .obj members') :
    follow root pending r =
      (members', (inline (follow root (without pending r)) (.obj members)).2) := by
  rw [follow, if_pos hlocal, dif_pos hpending]
  simp only [ht, hobj, Json.members?, Option.getD_some]

/-- A reference that names no object of its schema stands for nothing. -/
theorem follow_of_nowhere {pending : List String} {r : String} (ht : target? root r = none) :
    (follow root pending r).1 = [] := by
  rw [follow]
  split
  · split
    · simp only [ht]
    · rfl
  · rfl

/-- A local reference that is not pending refers back to itself. -/
theorem follow_of_not_pending {pending : List String} {r : String} (hlocal : isLocal r = true)
    (hpending : r ∉ pending) : follow root pending r = ([], [.cyclic r]) := by
  rw [follow, if_pos hlocal, dif_neg hpending]

/-- A reference that names an object is a local one. -/
theorem isLocal_of_target? {r : String} {members : Members Json}
    (h : target? root r = some members) : isLocal r = true := by
  unfold target? at h
  split at h
  · next hchars => rw [isLocal, hchars]; rfl
  · exact absurd h (by simp)

/-- What a reference stands for in a proper schema is proper.  Following it leaves fewer references
pending for the references inside its target. -/
theorem proper_follow (hroot : root.Proper) (pending : List String) (r : String) :
    (Json.obj (follow root pending r).1).Proper := by
  have hnil : (Json.obj []).Proper := Json.proper_obj.mpr ⟨List.nodup_nil, by simp⟩
  cases ht : target? root r with
  | none =>
    rw [follow_of_nowhere ht]
    exact hnil
  | some members =>
    by_cases hpending : r ∈ pending
    · obtain ⟨members', hobj⟩ :=
        exists_inline_obj (follow root (without pending r)) members
      rw [follow_of_target (isLocal_of_target? ht) hpending ht hobj, ← hobj]
      exact proper_inline (fun r' => proper_follow hroot (without pending r) r') _
        (proper_of_target? hroot ht)
    · rw [follow_of_not_pending (isLocal_of_target? ht) hpending]
      exact hnil
termination_by pending.length
decreasing_by exact length_without_lt ‹_›

/-- What a reference stands for is its expanded target, unless it refers back to itself. -/
theorem expandsTarget_follow (hroot : root.Proper) (pending : List String) (r : String)
    (h : Acyclic (follow root pending r).2) :
    ExpandsTarget root r (follow root pending r).1 := by
  cases ht : target? root r with
  | none =>
    rw [follow_of_nowhere ht]
    exact .nowhere ht
  | some members =>
    by_cases hpending : r ∈ pending
    · obtain ⟨members', hobj⟩ :=
        exists_inline_obj (follow root (without pending r)) members
      rw [follow_of_target (isLocal_of_target? ht) hpending ht hobj] at h ⊢
      refine .named ht ?_
      rw [← hobj]
      exact expands_inline
        (fun r' => (Json.proper_obj.mp (proper_follow hroot (without pending r) r')).1)
        (fun r' hr' => expandsTarget_follow hroot (without pending r) r' hr') _ h
    · rw [follow_of_not_pending (isLocal_of_target? ht) hpending] at h
      exact absurd List.mem_cons_self (h r)
termination_by pending.length
decreasing_by exact length_without_lt ‹_›

/-! ## Resolving a schema -/

/-- **Resolving expands.**  A proper schema in which no reference was found to refer back to itself
resolves to its expansion in itself, and to nothing else. -/
theorem expands_iff_eq_resolve {s : Json} (hs : s.Proper)
    (hacyclic : ∀ r, Issue.cyclic r ∉ (resolve s).2) (v : Json) :
    Expands s s v ↔ v = (resolve s).1 := by
  have hresolve : Expands s s (resolve s).1 :=
    expands_inline (fun r => (Json.proper_obj.mp (proper_follow hs (references s) r)).1)
      (fun r hr => expandsTarget_follow hs (references s) r hr) s hacyclic
  constructor
  · exact fun hv => hv.unique hresolve
  · rintro rfl
    exact hresolve

/-- A schema with a chain of references under a reference whose object has a member of its own. -/
def chained : Json :=
  .obj [
    ("defs", .obj [
      ("a", .obj [("$ref", .str "#/defs/b"), ("x", .ofNat 1)]),
      ("b", .obj [("x", .ofNat 2), ("y", .obj [("$ref", .str "#/defs/c")])]),
      ("c", .obj [("type", .str "boolean")])]),
    ("items", .arr [.obj [("y", .bool true), ("$ref", .str "#/defs/a")],
      .obj [("$ref", .str "#/defs/a"), ("z", .null)]])]

/-- What `chained` stands for. -/
def chainedExpanded : Json :=
  .obj [
    ("defs", .obj [
      ("a", .obj [("x", .ofNat 1), ("y", .obj [("type", .str "boolean")])]),
      ("b", .obj [("x", .ofNat 2), ("y", .obj [("type", .str "boolean")])]),
      ("c", .obj [("type", .str "boolean")])]),
    ("items", .arr [.obj [("y", .bool true), ("x", .ofNat 1)],
      .obj [("z", .null), ("x", .ofNat 1), ("y", .obj [("type", .str "boolean")])]])]

theorem expands_iff_eq_resolve_chained :
    chained.Proper ∧ (∀ r, Issue.cyclic r ∉ (resolve chained).2) ∧
      Expands chained chained chainedExpanded := by
  have hproper : chained.Proper := by
    simp [chained, Json.Proper, Json.ProperItems, Json.ProperMembers, Members.keys, Json.ofNat]
  have hresolve : resolve chained = (chainedExpanded, []) := by cbv
  have hacyclic : ∀ r, Issue.cyclic r ∉ (resolve chained).2 := by
    rw [hresolve]
    simp
  refine ⟨hproper, hacyclic, (expands_iff_eq_resolve hproper hacyclic chainedExpanded).mpr ?_⟩
  rw [hresolve]

end LintSetup.Schema
