import LintSetup.Json.Pointer
import LintSetup.Proofs.Members

/-!
# Values in which no object repeats a key

A JSON value is *proper* if every object in it, at any depth, has each of its keys once.  Members
are lists here, so a value need not be proper; but what a text reads as is (`parse?_proper`), and so
is every part of a proper value that a pointer names (`Proper.at?`).
-/

namespace LintSetup

namespace Json

mutual

/-- No object in the value repeats a key. -/
def Proper : Json → Prop
  | .arr items => ProperItems items
  | .obj members => (Members.keys members).Nodup ∧ ProperMembers members
  | .null | .bool _ | .num _ | .str _ => True

/-- `Proper` for every item of a list. -/
def ProperItems : List Json → Prop
  | [] => True
  | v :: rest => Proper v ∧ ProperItems rest

/-- `Proper` for the value of every member. -/
def ProperMembers : List (String × Json) → Prop
  | [] => True
  | (_, v) :: rest => Proper v ∧ ProperMembers rest

end

theorem properItems_iff {items : List Json} : ProperItems items ↔ ∀ v ∈ items, v.Proper := by
  induction items with
  | nil => simp [ProperItems]
  | cons v rest ih => rw [ProperItems, ih, List.forall_mem_cons]

theorem properMembers_iff {members : List (String × Json)} :
    ProperMembers members ↔ ∀ m ∈ members, m.2.Proper := by
  induction members with
  | nil => simp [ProperMembers]
  | cons m rest ih => rw [ProperMembers, ih, List.forall_mem_cons]

theorem proper_arr {items : List Json} : (arr items).Proper ↔ ∀ v ∈ items, v.Proper := by
  rw [Proper, properItems_iff]

theorem proper_obj {members : Members Json} :
    (obj members).Proper ↔ (Members.keys members).Nodup ∧ ∀ m ∈ members, m.2.Proper := by
  rw [Proper, properMembers_iff]

/-! ## Reading makes proper values -/

/-- Setting a key repeats none and makes up no value. -/
theorem proper_obj_set {members : Members Json} (h : (obj members).Proper) (key : String) (v : Json)
    (hv : v.Proper) : (obj (Members.set members key v)).Proper := by
  rw [proper_obj] at h ⊢
  refine ⟨Members.nodup_keys_set h.1 key v, fun m hm => ?_⟩
  rcases Members.mem_set hm with rfl | hm
  · exact hv
  · exact h.2 m hm

/-- So does setting the members one after another. -/
theorem proper_obj_ofList {members : List (String × Json)} (h : ∀ m ∈ members, m.2.Proper) :
    (obj (Members.ofList members)).Proper := by
  have hfold : ∀ (ms : List (String × Json)) (start : Members Json), (obj start).Proper →
      (∀ m ∈ ms, m.2.Proper) →
      (obj (ms.foldl (fun members m => Members.set members m.1 m.2) start)).Proper := by
    intro ms
    induction ms with
    | nil => exact fun start hstart _ => hstart
    | cons m rest ih =>
      intro start hstart hms
      rw [List.forall_mem_cons] at hms
      exact ih _ (proper_obj_set hstart m.1 m.2 hms.1) hms.2
  exact hfold members [] (proper_obj.mpr ⟨List.nodup_nil, by simp⟩) h

mutual

/-- A value with its repeated keys merged is proper. -/
theorem proper_merged : ∀ v : Json, (merged v).Proper
  | .arr items => proper_arr.mpr (proper_mergedItems items)
  | .obj members => proper_obj_ofList (proper_mergedMembers members)
  | .null => trivial
  | .bool _ => trivial
  | .num _ => trivial
  | .str _ => trivial

theorem proper_mergedItems : ∀ items : List Json, ∀ v ∈ mergedItems items, v.Proper
  | [] => by simp [mergedItems]
  | v :: rest => by
    rw [mergedItems, List.forall_mem_cons]
    exact ⟨proper_merged v, proper_mergedItems rest⟩

theorem proper_mergedMembers :
    ∀ members : List (String × Json), ∀ m ∈ mergedMembers members, m.2.Proper
  | [] => by simp [mergedMembers]
  | (k, v) :: rest => by
    rw [mergedMembers, List.forall_mem_cons]
    exact ⟨proper_merged v, proper_mergedMembers rest⟩

end

/-- **What a text reads as is proper.** -/
theorem parse?_proper {s : String} {v : Json} (h : parse? s = some v) : v.Proper := by
  obtain ⟨w, -, rfl⟩ := Option.map_eq_some_iff.mp h
  exact proper_merged w

/-! ## Parts of proper values -/

theorem Proper.step? {v w : Json} {step : List Char} (hv : v.Proper)
    (h : v.step? step = some w) : w.Proper := by
  cases v with
  | obj members => exact (proper_obj.mp hv).2 _ (Members.mem_of_get? h)
  | arr items =>
    obtain ⟨i, -, hi⟩ := Option.bind_eq_some_iff.mp h
    exact proper_arr.mp hv w (List.mem_of_getElem? hi)
  | _ => simp [Json.step?] at h

/-- What a pointer names in a proper value is proper. -/
theorem Proper.at? {v w : Json} {pointer : List Char} (hv : v.Proper)
    (h : v.at? pointer = some w) : w.Proper := by
  have hsteps : ∀ (steps : List (List Char)) (v : Json), v.Proper →
      steps.foldlM (fun v s => v.step? (unescapeStep s)) v = some w → w.Proper := by
    intro steps
    induction steps with
    | nil => exact fun v hv h => Option.some.inj h ▸ hv
    | cons step rest ih =>
      intro v hv h
      rw [List.foldlM_cons] at h
      obtain ⟨u, hu, hrest⟩ := Option.bind_eq_some_iff.mp h
      exact ih u (hv.step? hu) hrest
  unfold Json.at? at h
  split at h
  · exact Option.some.inj h ▸ hv
  · exact hsteps _ v hv h
  · exact absurd h (by simp)

end Json
end LintSetup
