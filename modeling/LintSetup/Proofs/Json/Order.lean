import LintSetup.Json.Sorted
import LintSetup.Proofs.Json.Layout
import LintSetup.Proofs.Json.Proper
import LintSetup.Proofs.Text.Utf8

/-!
# Values up to the order of their keys

What a value says does not depend on the order of the keys in its objects, and putting the keys in
order chooses one value among those that say the same.

* `EqualUpToOrder` --- two values are equal but for the order of the keys in their objects, at every
  depth.
* `Ascending` --- in every object the keys ascend, compared by their bytes.

Sorting is a normal form for the first (`spelledAlike_sorted_iff`), and its values are those that
satisfy the second (`Proper.ascending_sorted`, `Ascending.sorted_eq_self`).  Equality of the sorted
values is up to spelling here, since a number that is written the same may be kept in two ways.
-/

namespace LintSetup.Json

/-! ## Members by their keys -/

/-- The members with each value sorted and the keys in order. -/
def arranged (members : Members Json) : Members Json :=
  (members.map fun m => (m.1, sorted m.2)).mergeSort keyLE

theorem sorted_obj (members : Members Json) : sorted (obj members) = obj (arranged members) := by
  rw [sorted, sortedMembers_eq_map, arranged]

theorem sorted_arr (items : List Json) : sorted (arr items) = arr (items.map sorted) := by
  rw [sorted, sortedItems_eq_map]

theorem arranged_perm (members : Members Json) :
    (arranged members).Perm (members.map fun m => (m.1, sorted m.2)) :=
  List.mergeSort_perm _ _

theorem keys_map_sorted (members : Members Json) :
    Members.keys (members.map fun m => (m.1, sorted m.2)) = Members.keys members := by
  rw [Members.keys, List.map_map]
  rfl

theorem keys_arranged_perm (members : Members Json) :
    (Members.keys (arranged members)).Perm (Members.keys members) := by
  have hkeys := (arranged_perm members).map (·.1)
  rwa [← Members.keys, ← Members.keys, keys_map_sorted] at hkeys

theorem pairwise_keys_arranged (members : Members Json) :
    (Members.keys (arranged members)).Pairwise fun k l => Text.encode k ≤ Text.encode l := by
  rw [Members.keys, List.pairwise_map]
  refine (List.pairwise_mergeSort ?_ ?_ _).imp fun h => of_decide_eq_true h
  · intro m n o hmn hno
    exact decide_eq_true (List.le_trans (of_decide_eq_true hmn) (of_decide_eq_true hno))
  · intro m n
    rw [Bool.or_eq_true]
    exact (List.le_total _ _).imp decide_eq_true decide_eq_true

/-- Members have the same keys in order exactly when they have the same keys. -/
theorem keys_arranged_eq_iff {ms ns : Members Json} :
    Members.keys (arranged ms) = Members.keys (arranged ns) ↔
      (Members.keys ms).Perm (Members.keys ns) := by
  constructor
  · intro h
    exact (keys_arranged_perm ms).symm.trans (h ▸ keys_arranged_perm ns)
  · intro h
    refine List.Perm.eq_of_pairwise ?_ (pairwise_keys_arranged ms) (pairwise_keys_arranged ns)
      ((keys_arranged_perm ms).trans (h.trans (keys_arranged_perm ns).symm))
    intro k l _ _ hkl hlk
    exact Text.encode_inj.mp (List.le_antisymm hkl hlk)

theorem get?_arranged {members : Members Json} (h : (Members.keys members).Nodup) (key : String) :
    Members.get? (arranged members) key = (Members.get? members key).map sorted := by
  have hnodup : (Members.keys (arranged members)).Nodup :=
    (keys_arranged_perm members).nodup_iff.mpr h
  rw [Members.get?_eq_of_perm hnodup (arranged_perm members), Members.get?_map_values]

/-- The values of members with the same keys in the same order are related one by one exactly when
those under the same key are. -/
theorem forall₂_values_iff {R : Json → Json → Prop} {ms ns : Members Json}
    (hkeys : Members.keys ms = Members.keys ns) (hnodup : (Members.keys ms).Nodup) :
    List.Forall₂ R (ms.map (·.2)) (ns.map (·.2)) ↔
      ∀ key v w, Members.get? ms key = some v → Members.get? ns key = some w → R v w := by
  induction ms generalizing ns with
  | nil =>
    obtain rfl := List.map_eq_nil_iff.mp hkeys.symm
    simp
  | cons m ms ih =>
    cases ns with
    | nil => nomatch hkeys
    | cons n ns =>
      obtain ⟨hkey, hrest⟩ := List.cons.inj hkeys
      obtain ⟨hnew, hnodup⟩ := List.nodup_cons.mp hnodup
      have hkey : m.1 = n.1 := hkey
      rw [List.map_cons, List.map_cons, List.forall₂_cons, ih hrest hnodup]
      constructor
      · rintro ⟨hfirst, hlater⟩ key v w hv hw
        rw [Members.get?_cons] at hv hw
        rw [hkey] at hv
        split at hv
        · next heq =>
          rw [if_pos heq] at hw
          rwa [← Option.some.inj hv, ← Option.some.inj hw]
        · next hne =>
          rw [if_neg hne] at hw
          exact hlater key v w hv hw
      · intro hall
        refine ⟨hall m.1 _ _ (if_pos rfl) (if_pos hkey.symm), fun key v w hv hw => ?_⟩
        have hne : m.1 ≠ key := by
          rintro rfl
          exact hnew (Members.mem_keys_of_mem (Members.mem_of_get? hv))
        exact hall key v w ((if_neg hne).trans hv) ((if_neg (hkey ▸ hne)).trans hw)

/-! ## Equality up to the order of keys -/

/-- Two values are equal up to the order of the keys in their objects, at every depth.  Numbers are
equal when they are written with the same characters; the items of lists have to be in the same
order. -/
inductive EqualUpToOrder : Json → Json → Prop
  | null : EqualUpToOrder .null .null
  | bool (b : Bool) : EqualUpToOrder (.bool b) (.bool b)
  | num {m n : Number} (chars : m.chars = n.chars) : EqualUpToOrder (.num m) (.num n)
  | str (s : String) : EqualUpToOrder (.str s) (.str s)
  | arr {vs ws : List Json} (items : List.Forall₂ EqualUpToOrder vs ws) :
      EqualUpToOrder (.arr vs) (.arr ws)
  | obj {ms ns : Members Json} (keys : (Members.keys ms).Perm (Members.keys ns))
      (values : ∀ key v w, Members.get? ms key = some v → Members.get? ns key = some w →
        EqualUpToOrder v w) :
      EqualUpToOrder (.obj ms) (.obj ns)

theorem spelledAlike_arr_iff {vs ws : List Json} :
    SpelledAlike (arr vs) (arr ws) ↔ List.Forall₂ SpelledAlike vs ws := by
  refine ⟨fun h => ?_, .arr⟩
  cases h with
  | arr items => exact items

theorem spelledAlike_obj_iff {ms ns : Members Json} :
    SpelledAlike (obj ms) (obj ns) ↔ Members.keys ms = Members.keys ns ∧
      List.Forall₂ SpelledAlike (ms.map (·.2)) (ns.map (·.2)) := by
  refine ⟨fun h => ?_, fun h => .obj h.1 h.2⟩
  cases h with
  | obj keys values => exact ⟨keys, values⟩

theorem equalUpToOrder_arr_iff {vs ws : List Json} :
    EqualUpToOrder (arr vs) (arr ws) ↔ List.Forall₂ EqualUpToOrder vs ws := by
  refine ⟨fun h => ?_, .arr⟩
  cases h with
  | arr items => exact items

theorem equalUpToOrder_obj_iff {ms ns : Members Json} :
    EqualUpToOrder (obj ms) (obj ns) ↔ (Members.keys ms).Perm (Members.keys ns) ∧
      ∀ key v w, Members.get? ms key = some v → Members.get? ns key = some w →
        EqualUpToOrder v w := by
  refine ⟨fun h => ?_, fun h => .obj h.1 h.2⟩
  cases h with
  | obj keys values => exact ⟨keys, values⟩

/-- Relations that agree on the items of two lists relate the lists alike. -/
theorem forall₂_congr_mem {R S : Json → Json → Prop} {vs ws : List Json}
    (h : ∀ v ∈ vs, ∀ w ∈ ws, R v w ↔ S v w) : List.Forall₂ R vs ws ↔ List.Forall₂ S vs ws := by
  rw [List.forall₂_iff_zip, List.forall₂_iff_zip]
  refine and_congr_right fun _ => forall₂_congr fun v w => imp_congr_right fun hvw => ?_
  exact h v (List.of_mem_zip hvw).1 w (List.of_mem_zip hvw).2

theorem SpelledAlike.kind_eq {v w : Json} (h : SpelledAlike v w) : v.kind = w.kind := by
  cases h <;> rfl

theorem EqualUpToOrder.kind_eq {v w : Json} (h : EqualUpToOrder v w) : v.kind = w.kind := by
  cases h <;> rfl

theorem kind_sorted (v : Json) : (sorted v).kind = v.kind := by
  cases v <;> rw [sorted] <;> rfl

theorem spelledAlike_sorted_iff_of_kind_ne {v w : Json} (h : v.kind ≠ w.kind) :
    SpelledAlike (sorted v) (sorted w) ↔ EqualUpToOrder v w := by
  refine iff_of_false (fun halike => h ?_) fun hequal => h hequal.kind_eq
  rw [← kind_sorted v, halike.kind_eq, kind_sorted]

/-- **Keys in order are a normal form.**  Two proper values are equal up to the order of keys exactly
when they are spelled alike with their keys in order. -/
theorem spelledAlike_sorted_iff {v w : Json} (hv : v.Proper) (hw : w.Proper) :
    SpelledAlike (sorted v) (sorted w) ↔ EqualUpToOrder v w := by
  induction v using inductionOn generalizing w with
  | null =>
    cases w with
    | null => exact iff_of_true .null .null
    | _ => exact spelledAlike_sorted_iff_of_kind_ne nofun
  | bool b =>
    cases w with
    | bool c =>
      rw [sorted, sorted]
      constructor <;> rintro ⟨⟩ <;> exact .bool b
    | _ => exact spelledAlike_sorted_iff_of_kind_ne nofun
  | num m =>
    cases w with
    | num n =>
      rw [sorted, sorted]
      constructor <;> rintro ⟨⟩ <;> exact .num ‹_›
    | _ => exact spelledAlike_sorted_iff_of_kind_ne nofun
  | str s =>
    cases w with
    | str t =>
      rw [sorted, sorted]
      constructor <;> rintro ⟨⟩ <;> exact .str s
    | _ => exact spelledAlike_sorted_iff_of_kind_ne nofun
  | arr vs ih =>
    cases w with
    | arr ws =>
      rw [proper_arr] at hv hw
      rw [sorted_arr, sorted_arr, spelledAlike_arr_iff, List.forall₂_map_left_iff,
        List.forall₂_map_right_iff, equalUpToOrder_arr_iff]
      exact forall₂_congr_mem fun v hmem w hmem' => ih v hmem (hv v hmem) (hw w hmem')
    | _ => exact spelledAlike_sorted_iff_of_kind_ne nofun
  | obj ms ih =>
    cases w with
    | obj ns =>
      rw [proper_obj] at hv hw
      have hnodup : (Members.keys (arranged ms)).Nodup :=
        (keys_arranged_perm ms).nodup_iff.mpr hv.1
      have hvalue : ∀ key v w, Members.get? ms key = some v → Members.get? ns key = some w →
          (SpelledAlike (sorted v) (sorted w) ↔ EqualUpToOrder v w) := by
        intro key v w hget hget'
        have hmem := Members.mem_of_get? hget
        exact ih _ hmem (hv.2 _ hmem) (hw.2 _ (Members.mem_of_get? hget'))
      rw [sorted_obj, sorted_obj, spelledAlike_obj_iff, equalUpToOrder_obj_iff,
        keys_arranged_eq_iff]
      refine and_congr_right fun hkeys => ?_
      rw [forall₂_values_iff (keys_arranged_eq_iff.mpr hkeys) hnodup]
      simp only [get?_arranged hv.1, get?_arranged hw.1, Option.map_eq_some_iff]
      constructor
      · intro hall key v w hget hget'
        exact (hvalue key v w hget hget').mp (hall key _ _ ⟨v, hget, rfl⟩ ⟨w, hget', rfl⟩)
      · rintro hall key - - ⟨v, hget, rfl⟩ ⟨w, hget', rfl⟩
        exact (hvalue key v w hget hget').mpr (hall key v w hget hget')
    | _ => exact spelledAlike_sorted_iff_of_kind_ne nofun

/-! ## Ascending keys -/

/-- In every object of a value, at every depth, the keys ascend strictly, compared by their bytes. -/
inductive Ascending : Json → Prop
  | null : Ascending .null
  | bool (b : Bool) : Ascending (.bool b)
  | num (n : Number) : Ascending (.num n)
  | str (s : String) : Ascending (.str s)
  | arr {items : List Json} (items_ascending : ∀ v ∈ items, Ascending v) : Ascending (.arr items)
  | obj {members : Members Json}
      (keys : (Members.keys members).Pairwise fun k l => Text.encode k < Text.encode l)
      (values : ∀ m ∈ members, Ascending m.2) : Ascending (.obj members)

theorem pairwise_keys_lt {members : Members Json} (h : (Members.keys members).Nodup) :
    (Members.keys (arranged members)).Pairwise fun k l => Text.encode k < Text.encode l := by
  have hnodup : (Members.keys (arranged members)).Nodup :=
    (keys_arranged_perm members).nodup_iff.mpr h
  refine ((pairwise_keys_arranged members).and hnodup).imp fun {k l} hkl => ?_
  refine List.not_le.mp fun hlk => hkl.2 ?_
  exact Text.encode_inj.mp (List.le_antisymm hkl.1 hlk)

/-- With its keys in order, a proper value has ascending keys. -/
theorem Proper.ascending_sorted {v : Json} (h : v.Proper) : (sorted v).Ascending := by
  induction v using inductionOn with
  | null => exact .null
  | bool b => exact .bool b
  | num n => exact .num n
  | str s => exact .str s
  | arr items ih =>
    rw [proper_arr] at h
    rw [sorted_arr]
    exact .arr (List.forall_mem_map.mpr fun v hv => ih v hv (h v hv))
  | obj members ih =>
    rw [proper_obj] at h
    rw [sorted_obj]
    refine .obj (pairwise_keys_lt h.1) fun m hm => ?_
    obtain ⟨n, hn, rfl⟩ := List.mem_map.mp ((arranged_perm members).mem_iff.mp hm)
    exact ih n hn (h.2 n hn)

theorem Ascending.proper {v : Json} (h : v.Ascending) : v.Proper := by
  induction h with
  | arr _ ih => exact proper_arr.mpr ih
  | obj keys _ ih =>
    refine proper_obj.mpr ⟨keys.imp fun {k l} hlt heq => ?_, ih⟩
    exact List.lt_irrefl _ (heq ▸ hlt)
  | _ => trivial

/-- A value with ascending keys has its keys in order. -/
theorem Ascending.sorted_eq_self {v : Json} (h : v.Ascending) : sorted v = v := by
  induction h with
  | @arr items _ ih => rw [sorted_arr, List.map_congr_left ih, List.map_id']
  | @obj members keys _ ih =>
    have hvalues : (members.map fun m => (m.1, sorted m.2)) = members := by
      rw [List.map_congr_left fun m hm => congrArg (Prod.mk m.1) (ih m hm), List.map_id']
    rw [sorted_obj, arranged, hvalues, List.mergeSort_of_pairwise]
    rw [Members.keys, List.pairwise_map] at keys
    exact keys.imp fun hlt => decide_eq_true (List.le_of_lt hlt)
  | _ => rw [sorted]

theorem exists_mem_of_forall₂ {α β : Type} {R : α → β → Prop} {vs : List α} {ws : List β}
    (h : List.Forall₂ R vs ws) {v : α} (hv : v ∈ vs) : ∃ w ∈ ws, R v w := by
  induction h with
  | nil => exact absurd hv List.not_mem_nil
  | cons hfirst _ ih =>
    rcases List.mem_cons.mp hv with rfl | hv
    · exact ⟨_, List.mem_cons_self, hfirst⟩
    · obtain ⟨w, hw, hvw⟩ := ih hv
      exact ⟨w, List.mem_cons_of_mem _ hw, hvw⟩

/-- Whether keys ascend does not depend on how numbers are kept. -/
theorem SpelledAlike.ascending {v w : Json} (h : SpelledAlike v w) (hw : w.Ascending) :
    v.Ascending := by
  induction v using inductionOn generalizing w with
  | null => exact .null
  | bool b => exact .bool b
  | num n => exact .num n
  | str s => exact .str s
  | arr vs ih =>
    cases h with
    | arr items =>
      cases hw with
      | arr ascending =>
        refine .arr fun v hv => ?_
        obtain ⟨w, hw, halike⟩ := exists_mem_of_forall₂ items hv
        exact ih v hv halike (ascending w hw)
  | obj ms ih =>
    cases h with
    | obj keys values =>
      cases hw with
      | obj ascending values_ascending =>
        refine .obj (keys ▸ ascending) fun m hm => ?_
        obtain ⟨w, hw, halike⟩ := exists_mem_of_forall₂ values (List.mem_map_of_mem hm)
        obtain ⟨n, hn, rfl⟩ := List.mem_map.mp hw
        exact ih m hm halike (values_ascending n hn)

end LintSetup.Json
