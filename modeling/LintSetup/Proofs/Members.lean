import LintSetup.Members
import Mathlib.Data.List.Nodup

/-!
# Members whose keys are distinct

Members are a list, and most changes to them keep the keys of the list distinct.  Adding the
members of one list to another, where only those count whose keys are new, is an append of the new
ones (`foldl_setNew_eq`), provided that the list that is added has distinct keys.
-/

namespace LintSetup

namespace Members

variable {α : Type}

/-- Setting a key repeats none. -/
theorem nodup_keys_set {members : Members α} (h : (keys members).Nodup) (key : String)
    (value : α) : (keys (set members key value)).Nodup := by
  rw [keys_set]
  split
  · exact h
  · next hkey =>
    rw [List.nodup_append]
    refine ⟨h, List.nodup_singleton key, fun a ha b hb hab => hkey ?_⟩
    rw [← List.mem_singleton.mp hb, ← hab]
    exact ha

theorem nodup_keys_foldl_set (entries : List (String × α)) {members : Members α}
    (h : (keys members).Nodup) :
    (keys (entries.foldl (fun all m => set all m.1 m.2) members)).Nodup := by
  induction entries generalizing members with
  | nil => exact h
  | cons m rest ih => exact ih (nodup_keys_set h m.1 m.2)

/-- After several keys were set, the keys are those from before and the ones that were set. -/
theorem mem_keys_foldl_set (entries : List (String × α)) {members : Members α} {key : String} :
    key ∈ keys (entries.foldl (fun all m => set all m.1 m.2) members) ↔
      key ∈ keys members ∨ key ∈ keys entries := by
  induction entries generalizing members with
  | nil => simp [keys]
  | cons m rest ih =>
    have hkeys : keys (m :: rest) = m.1 :: keys rest := rfl
    rw [List.foldl_cons, ih, keys_set, hkeys, List.mem_cons]
    split
    · next hmem =>
      constructor
      · exact Or.imp_right .inr
      · rintro (h | rfl | h)
        · exact .inl h
        · exact .inl hmem
        · exact .inr h
    · rw [List.mem_append, List.mem_singleton, or_assoc]

/-- A key that did not occur is set at the end. -/
theorem set_eq_append {members : Members α} {key : String} (h : key ∉ keys members) (value : α) :
    set members key value = members ++ [(key, value)] := by
  induction members with
  | nil => rfl
  | cons m rest ih =>
    obtain ⟨hne, hrest⟩ := not_or.mp (mt List.mem_cons.mpr h)
    rw [set, if_neg (Ne.symm hne), ih hrest, List.cons_append]

/-- A value after a key was set is the new one, or it was there before. -/
theorem mem_set {members : Members α} {key : String} {value : α} {m : String × α}
    (h : m ∈ set members key value) : m = (key, value) ∨ m ∈ members := by
  induction members with
  | nil => exact Or.inl (List.mem_singleton.mp h)
  | cons n rest ih =>
    rw [set] at h
    split at h
    · next hkey =>
      rcases List.mem_cons.mp h with rfl | h
      · exact Or.inl (by rw [hkey])
      · exact Or.inr (List.mem_cons_of_mem n h)
    · rcases List.mem_cons.mp h with rfl | h
      · exact Or.inr List.mem_cons_self
      · exact (ih h).imp_right (List.mem_cons_of_mem n)

/-- A value that a key reads as stands among the members. -/
theorem mem_of_get? {members : Members α} {key : String} {value : α}
    (h : get? members key = some value) : (key, value) ∈ members := by
  induction members with
  | nil => simp at h
  | cons m rest ih =>
    rw [get?_cons] at h
    split at h
    · next hkey =>
      rw [← hkey, ← Option.some.inj h]
      exact List.mem_cons_self
    · exact List.mem_cons_of_mem m (ih h)

/-- The key of a member is one of the keys. -/
theorem mem_keys_of_mem {members : Members α} {key : String} {value : α}
    (h : (key, value) ∈ members) : key ∈ keys members :=
  List.mem_map_of_mem h

/-- When no key is repeated, every member is what its key reads as. -/
theorem get?_eq_some_iff {members : Members α} (h : (keys members).Nodup) {key : String}
    {value : α} : get? members key = some value ↔ (key, value) ∈ members := by
  refine ⟨mem_of_get?, fun hmem => ?_⟩
  induction members with
  | nil => exact absurd hmem List.not_mem_nil
  | cons m rest ih =>
    obtain ⟨hnew, hrest⟩ := List.nodup_cons.mp h
    rw [get?_cons]
    rcases List.mem_cons.mp hmem with rfl | hmem
    · exact if_pos rfl
    · have hne : m.1 ≠ key := by
        rintro rfl
        exact hnew (mem_keys_of_mem hmem)
      rw [if_neg hne, ih hrest hmem]

/-- Setting a key changes the member with this key and no other. -/
theorem mem_set_iff {members : Members α} (h : (keys members).Nodup) {key : String} {value : α}
    {m : String × α} : m ∈ set members key value ↔ m = (key, value) ∨ m ∈ members ∧ m.1 ≠ key := by
  obtain ⟨k, v⟩ := m
  rw [← get?_eq_some_iff (nodup_keys_set h key value), ← get?_eq_some_iff h]
  by_cases hk : k = key
  · rw [hk, get?_set_self]
    simp [eq_comm]
  · rw [get?_set_ne _ _ hk]
    simp [hk]

/-- Then the order of the members does not matter for reading. -/
theorem get?_eq_of_perm {members others : Members α} (h : (keys members).Nodup)
    (hperm : members.Perm others) (key : String) : get? members key = get? others key := by
  have hothers : (keys others).Nodup := (hperm.map _).nodup_iff.mp h
  refine Option.ext fun value => ?_
  rw [get?_eq_some_iff h, get?_eq_some_iff hothers, hperm.mem_iff]

theorem get?_map_values {β : Type} (f : α → β) (members : Members α) (key : String) :
    get? (members.map fun m => (m.1, f m.2)) key = (get? members key).map f := by
  induction members with
  | nil => rfl
  | cons m rest ih =>
    rw [List.map_cons, get?_cons, get?_cons, ih]
    split <;> rfl

/-- A key without a value occurs nowhere. -/
theorem has_eq_false_iff {members : Members α} {key : String} :
    has members key = false ↔ key ∉ keys members := by
  rw [← has_iff_mem_keys, Bool.not_eq_true]

/-- Having a key depends on the keys only. -/
theorem has_eq_of_keys_eq {β : Type} {members : Members α} {others : Members β}
    (h : keys members = keys others) (key : String) : has members key = has others key := by
  rw [Bool.eq_iff_iff, has_iff_mem_keys, has_iff_mem_keys, h]

@[simp] theorem keys_append (members others : Members α) :
    keys (members ++ others) = keys members ++ keys others :=
  List.map_append

/-- When no key is repeated in members and later ones, the first of the later keys is new, it can be
left out, and it can go over to the earlier ones. -/
theorem nodup_keys_append_cons {β : Type} {members : Members α} {key : String} {value : β}
    {later : Members β} (h : (keys members ++ keys ((key, value) :: later)).Nodup) :
    key ∉ keys members ∧ (keys members ++ keys later).Nodup ∧
      ∀ v : α, (keys (members ++ [(key, v)]) ++ keys later).Nodup := by
  refine ⟨fun hkey => ?_, h.sublist ((List.sublist_cons_self _ _).append_left _), fun v => ?_⟩
  · exact (List.nodup_append.mp h).2.2 key hkey key List.mem_cons_self rfl
  · rw [keys_append, List.append_assoc]
    exact h

/-- Members that come later are read only where the earlier ones say nothing. -/
theorem get?_append (members others : Members α) (key : String) :
    get? (members ++ others) key = (get? members key).or (get? others key) := by
  induction members with
  | nil => rfl
  | cons m rest ih =>
    obtain ⟨k, v⟩ := m
    rw [List.cons_append, get?_cons, get?_cons]
    split
    · rfl
    · exact ih

theorem erase_cons (k : String) (v : α) (rest : Members α) (key : String) :
    erase ((k, v) :: rest) key =
      if k = key then erase rest key else (k, v) :: erase rest key := by
  rw [erase, List.filter_cons]
  by_cases h : k = key <;> simp [erase, h]

@[simp] theorem erase_append (members others : Members α) (key : String) :
    erase (members ++ others) key = erase members key ++ erase others key :=
  List.filter_append ..

/-- Taking away a key that does not occur changes nothing. -/
theorem erase_eq_self {members : Members α} {key : String} (h : key ∉ keys members) :
    erase members key = members := by
  rw [erase, List.filter_eq_self]
  intro m hm
  rw [bne_iff_ne]
  rintro rfl
  exact h (List.mem_map_of_mem hm)

/-- A key that members are kept for reads as before. -/
theorem get?_filter_key {p : String → Bool} {key : String} (h : p key = true)
    (members : Members α) :
    get? (members.filter fun m => p m.1) key = get? members key := by
  induction members with
  | nil => rfl
  | cons m rest ih =>
    obtain ⟨k, v⟩ := m
    by_cases hkey : k = key
    · rw [List.filter_cons_of_pos (by rwa [hkey]), get?_cons, get?_cons, if_pos hkey, if_pos hkey]
    · rw [get?_cons, if_neg hkey, ← ih, List.filter_cons]
      split
      · rw [get?_cons, if_neg hkey]
      · rfl

/-- Taking keys away leaves the keys distinct. -/
theorem nodup_keys_filter {members : Members α} (h : (keys members).Nodup)
    (p : String × α → Bool) : (keys (members.filter p)).Nodup :=
  h.sublist (List.filter_sublist.map _)

/-- **Adding members whose keys are new.**  Of members with distinct keys, those are appended whose
keys did not occur before. -/
theorem foldl_setNew_eq {target : Members α} (h : (keys target).Nodup) (members : Members α) :
    target.foldl (fun ms m => setNew ms m.1 m.2) members =
      members ++ target.filter fun m => !has members m.1 := by
  induction target generalizing members with
  | nil => exact (List.append_nil members).symm
  | cons m rest ih =>
    obtain ⟨k, v⟩ := m
    obtain ⟨hk, hrest⟩ := List.nodup_cons.mp h
    rw [List.foldl_cons, ih hrest, setNew]
    cases hhas : has members k with
    | true => simp [hhas]
    | false =>
      rw [if_neg Bool.false_ne_true, List.append_assoc, List.filter_cons, hhas, Bool.not_false,
        if_pos rfl, List.singleton_append]
      congr 2
      refine List.filter_congr fun m hm => ?_
      have hne : m.1 ≠ k := by
        rintro rfl
        exact hk (List.mem_map.mpr ⟨m, hm, rfl⟩)
      have hsame : has (members ++ [(k, v)]) m.1 = has members m.1 := by
        rw [Bool.eq_iff_iff, has_iff_mem_keys, has_iff_mem_keys, keys_append, List.mem_append]
        exact or_iff_left fun hmem => hne (List.mem_singleton.mp hmem)
      rw [hsame]

/-- Of members that are added where they are lacking, those are read of whose keys the earlier ones
say nothing. -/
theorem get?_foldl_setNew (target members : Members α) (key : String) :
    get? (target.foldl (fun ms m => setNew ms m.1 m.2) members) key =
      (get? members key).or (get? target key) := by
  induction target generalizing members with
  | nil => simp
  | cons m rest ih =>
    obtain ⟨k, v⟩ := m
    have hnew : get? (setNew members k v) key =
        (get? members key).or (if k = key then some v else none) := by
      rw [setNew]
      split
      · next hhas =>
        obtain ⟨w, hw⟩ := Option.isSome_iff_exists.mp hhas
        by_cases hk : k = key
        · subst hk
          rw [hw, Option.some_or]
        · rw [if_neg hk, Option.or_none]
      · rw [get?_append]
        rfl
    rw [List.foldl_cons, ih, hnew, Option.or_assoc, get?_cons]
    split <;> simp

/-- The value of a key's last occurrence.  Where keys are distinct this is what the key reads as. -/
def last? (members : Members α) (key : String) : Option α := get? members.reverse key

theorem last?_cons (m : String × α) (rest : Members α) (key : String) :
    last? (m :: rest) key = (last? rest key).or (if m.1 = key then some m.2 else none) := by
  rw [last?, List.reverse_cons, get?_append]
  rfl

theorem last?_append (members others : Members α) (key : String) :
    last? (members ++ others) key = (last? others key).or (last? members key) := by
  rw [last?, List.reverse_append, get?_append]
  rfl

/-- After several keys were set, a key reads as it was set last, or as before. -/
theorem get?_foldl_set (entries : List (String × α)) (members : Members α) (key : String) :
    get? (entries.foldl (fun all m => set all m.1 m.2) members) key =
      (last? entries key).or (get? members key) := by
  induction entries generalizing members with
  | nil => rfl
  | cons m rest ih =>
    rw [List.foldl_cons, ih, last?_cons, Option.or_assoc]
    congr 1
    split
    · next hkey => rw [← hkey, get?_set_self, Option.some_or]
    · next hkey => rw [get?_set_ne _ _ (Ne.symm hkey), Option.none_or]

/-- Keys that are set for the first time come after the others, in the order in which they are
first set. -/
theorem keys_foldl_set (entries : List (String × α)) (members : Members α) :
    keys (entries.foldl (fun all m => set all m.1 m.2) members) =
      keys members ++ ((keys entries).removeAll (keys members)).eraseDups := by
  induction entries generalizing members with
  | nil => simp [keys]
  | cons m rest ih =>
    have hcons : keys (m :: rest) = m.1 :: keys rest := rfl
    rw [List.foldl_cons, ih, keys_set, hcons, List.cons_removeAll]
    split
    · next hmem => rw [if_neg (by simpa using hmem)]
    · next hmem =>
      rw [if_pos (by simpa using hmem), List.eraseDups_cons, List.append_assoc,
        List.singleton_append]
      congr 3
      simp only [List.removeAll, List.filter_filter]
      refine List.filter_congr fun key _ => ?_
      simp [Bool.and_comm, beq_eq_decide]

/-- Members with distinct keys are what their keys read as. -/
theorem eq_map_of_nodup {members : Members α} (h : (keys members).Nodup) {value : String → α}
    (hvalue : ∀ key ∈ keys members, get? members key = some (value key)) :
    members = (keys members).map fun key => (key, value key) := by
  rw [keys, List.map_map]
  refine (List.map_id members).symm.trans (List.map_congr_left fun m hm => ?_)
  have hread := (get?_eq_some_iff h).mpr hm
  rw [hvalue m.1 (mem_keys_of_mem hm)] at hread
  exact Prod.ext rfl (Option.some.inj hread).symm

end Members
end LintSetup
