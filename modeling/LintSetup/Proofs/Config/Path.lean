import LintSetup.Config
import LintSetup.Proofs.Json.Order

/-!
# Setting a value at a path

A path of keys leads through the objects of a configuration.  Setting a value there goes down along
the path, and on every level sets one key: the last one to the value, and each of the others to an
object (`setKeys_cons`).  What stands under the other keys of that level is not looked at, so all
laws go from one level to the next by the laws of `Members.set`.

* `Unrelated` --- two paths of which neither leads through the end of the other.
* `objectAt` --- the members of the object that keys lead to.
* `setPath_laws` --- what setting a value at a path changes, and what it does not.
-/

namespace LintSetup

namespace Members

variable {α : Type}

/-- The other members stay as they are when a key is set. -/
theorem erase_set (members : Members α) (key : String) (value : α) :
    erase (set members key value) key = erase members key := by
  induction members with
  | nil => simp [erase]
  | cons m rest ih =>
    obtain ⟨k, v⟩ := m
    rw [set]
    split
    · next hkey => rw [erase_cons, erase_cons, if_pos hkey, if_pos hkey]
    · next hkey => rw [erase_cons, erase_cons, if_neg hkey, if_neg hkey, ih]

end Members

namespace Json

/-- Every value is equal to itself up to the order of keys. -/
theorem EqualUpToOrder.refl (v : Json) : EqualUpToOrder v v := by
  induction v using inductionOn with
  | null => exact .null
  | bool b => exact .bool b
  | num n => exact .num rfl
  | str s => exact .str s
  | arr items ih => exact .arr (List.forall₂_same.mpr ih)
  | obj members ih =>
    refine .obj (.refl _) fun key v w hv hw => ?_
    obtain rfl := Option.some.inj (hv.symm.trans hw)
    exact ih _ (Members.mem_of_get? hv)

/-- Objects are equal up to the order of keys if under one key they have values that are, and are
otherwise the same. -/
theorem EqualUpToOrder.set {v w : Json} (h : EqualUpToOrder v w) (members : Members Json)
    (key : String) :
    EqualUpToOrder (.obj (Members.set members key v)) (.obj (Members.set members key w)) := by
  refine .obj ?_ fun other v' w' hv' hw' => ?_
  · rw [Members.keys_set, Members.keys_set]
  · by_cases hkey : other = key
    · subst hkey
      rw [Members.get?_set_self] at hv' hw'
      rwa [← Option.some.inj hv', ← Option.some.inj hw']
    · rw [Members.get?_set_ne _ _ hkey] at hv' hw'
      obtain rfl := Option.some.inj (hv'.symm.trans hw')
      exact .refl v'

theorem keys_set_comm_perm {key other : String} (hne : key ≠ other) (members : Members Json)
    (v w : Json) :
    (Members.keys (Members.set (Members.set members key v) other w)).Perm
      (Members.keys (Members.set (Members.set members other w) key v)) := by
  simp only [Members.keys_set]
  by_cases hkey : key ∈ Members.keys members <;> by_cases hother : other ∈ Members.keys members
  · simp [hkey, hother]
  · simp [hkey, hother]
  · simp [hkey, hother]
  · simpa [hkey, hother, hne, hne.symm] using (List.Perm.swap other key []).append_left _

/-- Two keys can be set in either order. -/
theorem EqualUpToOrder.set_comm {key other : String} (hne : key ≠ other) (members : Members Json)
    (v w : Json) :
    EqualUpToOrder (.obj (Members.set (Members.set members key v) other w))
      (.obj (Members.set (Members.set members other w) key v)) := by
  refine .obj (keys_set_comm_perm hne members v w) fun name v' w' hv' hw' => ?_
  have hsame : Members.get? (Members.set (Members.set members key v) other w) name =
      Members.get? (Members.set (Members.set members other w) key v) name := by
    by_cases hkey : name = key
    · subst hkey
      rw [Members.get?_set_ne _ _ hne, Members.get?_set_self, Members.get?_set_self]
    · by_cases hother : name = other
      · subst hother
        rw [Members.get?_set_self, Members.get?_set_ne _ _ hkey, Members.get?_set_self]
      · simp only [Members.get?_set_ne _ _ hkey, Members.get?_set_ne _ _ hother]
  obtain rfl := Option.some.inj (hv'.symm.trans (hsame.trans hw'))
  exact .refl v'

end Json

namespace Config

/-- Neither of two paths leads through the end of the other. -/
def Unrelated (p q : String) : Prop :=
  ¬ Text.pieces '.' p <+: Text.pieces '.' q ∧ ¬ Text.pieces '.' q <+: Text.pieces '.' p

instance (p q : String) : Decidable (Unrelated p q) := inferInstanceAs (Decidable (_ ∧ _))

/-- The members of the object that keys lead to, none if there is no object. -/
def objectAt (keys : List String) (v : Json) : Members Json :=
  ((readKeys keys v).bind Json.members?).getD []

/-- What is set under the first key of a path: the value itself at the end of the path, and before
that an object. -/
def slot (value : Json) (rest : List String) (members : Members Json) : Json :=
  if rest.isEmpty then value else .obj (setKeys value rest members)

variable {key other : String} {rest ps qs : List String}

theorem setKeys_cons (value : Json) (key : String) (rest : List String) (members : Members Json) :
    setKeys value (key :: rest) members =
      Members.set members key (slot value rest (within members key)) := by
  cases rest <;> rfl

theorem slot_of_ne_nil (value : Json) (h : rest ≠ []) (members : Members Json) :
    slot value rest members = .obj (setKeys value rest members) := by
  rw [slot, List.isEmpty_eq_false_iff.mpr h, if_neg Bool.false_ne_true]

theorem ne_nil_of_not_isPrefix (h : ¬ ps <+: qs) : ps ≠ [] := by
  rintro rfl
  exact h List.nil_prefix

theorem not_isPrefix_of_cons (h : ¬ key :: ps <+: key :: qs) : ¬ ps <+: qs :=
  fun hrest => h (List.cons_prefix_cons.mpr ⟨rfl, hrest⟩)

theorem within_set_obj (members inner : Members Json) (key : String) :
    within (Members.set members key (.obj inner)) key = inner := by
  rw [within, Members.get?_set_self]
  rfl

theorem within_set_ne (members : Members Json) (value : Json) (h : other ≠ key) :
    within (Members.set members key value) other = within members other := by
  rw [within, within, Members.get?_set_ne _ _ h]

/-- Below a key, keys lead where they lead from the object under that key. -/
theorem readKeys_within (members : Members Json) (key : String) (h : rest ≠ []) :
    readKeys rest (.obj (within members key)) =
      (Members.get? members key).bind (readKeys rest) := by
  obtain ⟨next, rest, rfl⟩ := List.exists_cons_of_ne_nil h
  rw [within]
  cases Members.get? members key with
  | none => rfl
  | some v => cases v <;> rfl

theorem objectAt_within (members : Members Json) (key : String) (rest : List String) :
    objectAt rest (.obj (within members key)) = objectAt (key :: rest) (.obj members) := by
  cases rest with
  | nil =>
    rw [objectAt, objectAt, readKeys, readKeys, Option.bind_some, Json.get?]
    cases hkey : Members.get? members key <;> simp [within, hkey, readKeys, Json.members?]
  | cons next rest => rw [objectAt, readKeys_within _ _ (List.cons_ne_nil _ _)]; rfl

/-! ## Reading after setting -/

/-- The value that was set is read. -/
theorem readKeys_setKeys_self (value : Json) (h : ps ≠ []) (members : Members Json) :
    readKeys ps (.obj (setKeys value ps members)) = some value := by
  induction ps generalizing members with
  | nil => exact absurd rfl h
  | cons key rest ih =>
    rw [setKeys_cons, readKeys, Json.get?, Members.get?_set_self, Option.bind_some]
    by_cases hrest : rest = []
    · subst hrest
      rfl
    · rw [slot_of_ne_nil _ hrest, ih hrest]

/-- What is read along an unrelated path stays the same. -/
theorem readKeys_setKeys_of_not_isPrefix (value : Json) (hpq : ¬ ps <+: qs) (hqp : ¬ qs <+: ps)
    (members : Members Json) :
    readKeys qs (.obj (setKeys value ps members)) = readKeys qs (.obj members) := by
  induction ps generalizing qs members with
  | nil => exact absurd List.nil_prefix hpq
  | cons key rest ih =>
    obtain ⟨other, later, rfl⟩ := List.exists_cons_of_ne_nil (ne_nil_of_not_isPrefix hqp)
    rw [setKeys_cons, readKeys, readKeys, Json.get?, Json.get?]
    by_cases hkey : other = key
    · subst hkey
      have hpq := not_isPrefix_of_cons hpq
      have hqp := not_isPrefix_of_cons hqp
      rw [Members.get?_set_self, Option.bind_some, slot_of_ne_nil _ (ne_nil_of_not_isPrefix hpq),
        ih hpq hqp, readKeys_within _ _ (ne_nil_of_not_isPrefix hqp)]
    · rw [Members.get?_set_ne _ _ hkey]

/-! ## Setting again -/

/-- Of two values that are set at a path, the second one stays. -/
theorem setKeys_setKeys (value later : Json) (ps : List String) (members : Members Json) :
    setKeys later ps (setKeys value ps members) = setKeys later ps members := by
  induction ps generalizing members with
  | nil => rfl
  | cons key rest ih =>
    rw [setKeys_cons, setKeys_cons, setKeys_cons, Members.set_set]
    by_cases hrest : rest = []
    · subst hrest
      rfl
    · rw [slot_of_ne_nil _ hrest, slot_of_ne_nil _ hrest, slot_of_ne_nil _ hrest, within_set_obj,
        ih]

/-- Values at unrelated paths can be set in either order. -/
theorem setKeys_comm (v w : Json) (hpq : ¬ ps <+: qs) (hqp : ¬ qs <+: ps)
    (members : Members Json) :
    Json.EqualUpToOrder (.obj (setKeys w qs (setKeys v ps members)))
      (.obj (setKeys v ps (setKeys w qs members))) := by
  induction ps generalizing qs members with
  | nil => exact absurd List.nil_prefix hpq
  | cons key rest ih =>
    obtain ⟨other, later, rfl⟩ := List.exists_cons_of_ne_nil (ne_nil_of_not_isPrefix hqp)
    simp only [setKeys_cons]
    by_cases hkey : other = key
    · subst hkey
      have hpq := not_isPrefix_of_cons hpq
      have hqp := not_isPrefix_of_cons hqp
      simp only [slot_of_ne_nil _ (ne_nil_of_not_isPrefix hpq),
        slot_of_ne_nil _ (ne_nil_of_not_isPrefix hqp), within_set_obj, Members.set_set]
      exact (ih hpq hqp _).set members other
    · rw [within_set_ne _ _ hkey, within_set_ne _ _ (Ne.symm hkey)]
      exact .set_comm (Ne.symm hkey) members _ _

/-! ## The objects along a path -/

/-- An object along the path gets one member at most, at its end, and loses none. -/
theorem exists_objectAt_setKeys (value : Json) (before : List String) (key : String)
    (after : List String) (members : Members Json) :
    ∃ w, objectAt before (.obj (setKeys value (before ++ key :: after) members)) =
      Members.set (objectAt before (.obj members)) key w := by
  induction before generalizing members with
  | nil => exact ⟨_, setKeys_cons value key after members⟩
  | cons first before ih =>
    obtain ⟨w, hw⟩ := ih (within members first)
    refine ⟨w, ?_⟩
    rw [List.cons_append, setKeys_cons, slot_of_ne_nil _ (by simp), ← objectAt_within,
      within_set_obj, hw, objectAt_within]

/-- **Setting a value at a path.**  Afterwards the path leads to the value, and an unrelated path
leads to where it led before.  In every object along the path the members other than the one on the
way stay as they are and in their order; the one on the way keeps its place, or comes at the end if
it is new.  Of two values that are set at the same path the second one stays, as if the first had
never been set; values at unrelated paths can be set in either order, up to the order of keys. -/
theorem setPath_laws (c : Config) (p q : String) (v w : Json) :
    (c.setPath p v).readPath p = some v ∧
      (Unrelated p q → (c.setPath p v).readPath q = c.readPath q) ∧
      (∀ before key after, Text.pieces '.' p = before ++ key :: after →
        let old := objectAt before c.toJson
        let new := objectAt before (c.setPath p v).toJson
        Members.erase new key = Members.erase old key ∧
          Members.keys new =
            if key ∈ Members.keys old then Members.keys old else Members.keys old ++ [key]) ∧
      (c.setPath p v).setPath p w = c.setPath p w ∧
      (Unrelated p q → Json.EqualUpToOrder ((c.setPath p v).setPath q w).toJson
        ((c.setPath q w).setPath p v).toJson) := by
  have hne : Text.pieces '.' p ≠ [] := mt List.map_eq_nil_iff.mp (Text.cutAt_ne_nil _ _)
  refine ⟨readKeys_setKeys_self v hne c.members,
    fun h => readKeys_setKeys_of_not_isPrefix v h.1 h.2 c.members, fun before key after hp => ?_,
    congrArg mk (setKeys_setKeys v w _ c.members), fun h => setKeys_comm v w h.1 h.2 c.members⟩
  obtain ⟨u, hu⟩ := exists_objectAt_setKeys v before key after c.members
  rw [setPath, hp, toJson, toJson, hu]
  exact ⟨Members.erase_set _ _ _, Members.keys_set _ _ _⟩

/-- A configuration in which a scalar stands where an object could be. -/
def browserConfig : Config := ⟨[("env", .str "browser"), ("root", .bool true)]⟩

/-- Two environments, neither of which replaces the other. -/
theorem setPath_laws_browserConfig :
    Unrelated "env.node" "env.es6" ∧
      (browserConfig.setPath "env.node" (.bool true)).readPath "env.es6" =
        browserConfig.readPath "env.es6" ∧
      Text.pieces '.' "env.node" = [] ++ "env" :: ["node"] ∧
      Members.keys (objectAt [] (browserConfig.setPath "env.node" (.bool true)).toJson) =
        ["env", "root"] ∧
      Json.EqualUpToOrder
        (.obj [("env", .obj [("node", .bool true), ("es6", .bool false)]), ("root", .bool true)])
        (.obj [("env", .obj [("es6", .bool false), ("node", .bool true)]),
          ("root", .bool true)]) := by
  have hunrelated : Unrelated "env.node" "env.es6" := by decide
  have hpieces : Text.pieces '.' "env.node" = [] ++ "env" :: ["node"] := by decide
  obtain ⟨-, hframe, halong, -, hcomm⟩ :=
    setPath_laws browserConfig "env.node" "env.es6" (.bool true) (.bool false)
  exact ⟨hunrelated, hframe hunrelated, hpieces, (halong _ _ _ hpieces).2, hcomm hunrelated⟩

end Config
end LintSetup
