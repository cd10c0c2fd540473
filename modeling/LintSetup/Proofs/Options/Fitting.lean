import LintSetup.Options.Space
import LintSetup.Proofs.Json.Proper
import Mathlib.Data.List.Forall2
import Mathlib.Logic.Relation

/-!
# Which values are listed for a schema

`choices` lists the values of a schema as far as it can be listed.  Which values these are can be
said without the order of the list and without the places where listing had to give up:
`Fits s v` says that the value `v` has the form that the schema `s` describes.

* The *shape* of a schema is the part of it that is listed, and `HasShape` gives the conditions on
  its members under which it has one.  A schema has at most one shape, and only a schema with a
  shape has values listed.
* `Fits` has one rule for each shape.
* What a schema with a shape lists is then one lemma for each shape (`mem_choices_of_choice` to
  `mem_choices_of_record`), in terms of what its parts list.

An unsupported part cuts a position of a list short, so values behind it can fit without being
listed.  A schema is *unbroken* if this happens nowhere inside it.  Every value that is listed fits,
and every value that fits an unbroken schema is listed (`choices_fit_and_exhaust`).
-/

namespace LintSetup.Options

/-! ## Shapes -/

/-- What is listed of a schema. -/
inductive Shape where
  | choice (alternatives : List Json)
  | literals (values : List Json)
  | boolean
  | tuple (items : List Json)
  | record (properties : Members Json)

/-- A schema is read by its type: it has that type, and neither alternatives nor literals. -/
structure TypedAs (members : Members Json) (type : String) : Prop where
  noAllOf : Members.has members "allOf" = false
  noAlternatives : Space.alternativesOf members = none
  noLiterals : Members.get? members "enum" = none
  type_eq : Members.get? members "type" = some (.str type)

/-- The conditions on the members of a schema under which it has a shape. -/
inductive HasShape (members : Members Json) : Shape → Prop
  | choice {alternatives : List Json} (noAllOf : Members.has members "allOf" = false)
    (h : Space.alternativesOf members = some (.arr alternatives)) :
    HasShape members (.choice alternatives)
  | literals {values : List Json} (noAllOf : Members.has members "allOf" = false)
    (noAlternatives : Space.alternativesOf members = none)
    (h : Members.get? members "enum" = some (.arr values)) : HasShape members (.literals values)
  | boolean (h : TypedAs members "boolean") : HasShape members .boolean
  | tuple {items : List Json} (h : TypedAs members "array")
    (hitems : Members.get? members "items" = some (.arr items)) (hne : items ≠ []) :
    HasShape members (.tuple items)
  | record {properties : Members Json} (h : TypedAs members "object")
    (hclosed : Space.isOpen members = false)
    (hproperties : Members.get? members "properties" = some (.obj properties))
    (hne : properties ≠ []) : HasShape members (.record properties)

/-- A schema has at most one shape. -/
theorem HasShape.unique {members : Members Json} {shape other : Shape}
    (h : HasShape members shape) (h' : HasShape members other) : shape = other := by
  rcases h with _ | _ | ⟨⟨⟩⟩ | ⟨⟨⟩⟩ | ⟨⟨⟩⟩ <;> rcases h' with _ | _ | ⟨⟨⟩⟩ | ⟨⟨⟩⟩ | ⟨⟨⟩⟩ <;> simp_all

/-- The schemas that a shape is made of. -/
def Shape.parts : Shape → List Json
  | choice alternatives => alternatives
  | literals _ | boolean => []
  | tuple items => items
  | record properties => properties.map (·.2)

/-- The space that a shape stands for. -/
def Shape.space : Shape → Space
  | choice alternatives => .choice (Space.ofSchemas alternatives)
  | literals values => .values values
  | boolean => .values [.bool true, .bool false]
  | tuple items => .tuple (Space.ofSchemas items)
  | record properties => .record (Space.ofProperties properties)

/-- The space of a schema that is read as a list. -/
theorem TypedAs.ofSchema_array {members : Members Json} (h : TypedAs members "array") :
    Space.ofSchema (.obj members) =
      match Members.get? members "items" with
      | some (.arr schemas) => .tuple (Space.ofSchemas schemas)
      | _ => .unsupported := by
  rw [Space.ofSchema, h.noAllOf, if_neg Bool.false_ne_true]
  split
  · simp_all [h.noAlternatives]
  · simp_all [h.noAlternatives]
  · simp only [h.noLiterals, h.type_eq]
    split <;> simp_all

/-- The space of a schema that is read as an object. -/
theorem TypedAs.ofSchema_object {members : Members Json} (h : TypedAs members "object") :
    Space.ofSchema (.obj members) =
      if Space.isOpen members then .unsupported
      else
        match Members.get? members "properties" with
        | some (.obj properties) => .record (Space.ofProperties properties)
        | _ => .values [] := by
  rw [Space.ofSchema, h.noAllOf, if_neg Bool.false_ne_true]
  split
  · simp_all [h.noAlternatives]
  · simp_all [h.noAlternatives]
  · simp only [h.noLiterals, h.type_eq]
    split
    · rfl
    · split <;> simp_all

/-- The space of a schema with a shape. -/
theorem ofSchema_of_hasShape {members : Members Json} {shape : Shape}
    (h : HasShape members shape) : Space.ofSchema (.obj members) = shape.space := by
  cases h with
  | choice hall h =>
    rw [Space.ofSchema, hall, if_neg Bool.false_ne_true]
    split <;> simp_all [Shape.space]
  | literals hall hno h =>
    rw [Space.ofSchema, hall, if_neg Bool.false_ne_true]
    split <;> simp_all [Shape.space]
  | boolean h =>
    obtain ⟨hall, hno, henum, htype⟩ := h
    rw [Space.ofSchema, hall, if_neg Bool.false_ne_true]
    split <;> simp_all [Shape.space]
  | tuple h hitems =>
    rw [h.ofSchema_array, hitems]
    rfl
  | record h hclosed hproperties =>
    rw [h.ofSchema_object, hclosed, if_neg Bool.false_ne_true, hproperties]
    rfl

/-- A list of which values are listed has positions. -/
theorem TypedAs.exists_tuple {members : Members Json} {v : Json} (h : TypedAs members "array")
    (hv : Choice.value v ∈ (choices (.obj members)).toList) :
    ∃ items, HasShape members (.tuple items) := by
  rw [choices, h.ofSchema_array] at hv
  split at hv
  · next items hitems =>
    refine ⟨items, .tuple h hitems ?_⟩
    rintro rfl
    simp [Space.choices, Space.ofSchemas] at hv
  · simp [Space.choices] at hv

/-- An object of which values are listed is closed and has properties. -/
theorem TypedAs.exists_record {members : Members Json} {v : Json} (h : TypedAs members "object")
    (hv : Choice.value v ∈ (choices (.obj members)).toList) :
    ∃ properties, HasShape members (.record properties) := by
  rw [choices, h.ofSchema_object] at hv
  split at hv
  · simp [Space.choices] at hv
  · next hclosed =>
    split at hv
    · next properties hproperties =>
      refine ⟨properties, .record h (Bool.eq_false_iff.mpr hclosed) hproperties ?_⟩
      rintro rfl
      simp [Space.choices, Space.ofProperties] at hv
    · simp [Space.choices] at hv

/-- Only a schema with a shape has values listed. -/
theorem exists_hasShape {s v : Json} (hv : Choice.value v ∈ (choices s).toList) :
    ∃ members shape, s = .obj members ∧ HasShape members shape := by
  have hlisted := hv
  rw [choices] at hv
  unfold Space.ofSchema at hv
  split at hv
  · next members =>
    refine ⟨members, ?_⟩
    split at hv
    · simp [Space.choices] at hv
    · next hall =>
      rw [Bool.not_eq_true] at hall
      split at hv
      · next h => exact ⟨_, rfl, .choice hall h⟩
      · simp [Space.choices] at hv
      · next hno =>
        split at hv
        · next h => exact ⟨_, rfl, .literals hall hno h⟩
        · simp [Space.choices] at hv
        · next henum =>
          -- what is left is read by its type
          split at hv
          · next htype => exact ⟨_, rfl, .boolean ⟨hall, hno, henum, htype⟩⟩
          · next htype =>
            obtain ⟨items, h⟩ := TypedAs.exists_tuple ⟨hall, hno, henum, htype⟩ hlisted
            exact ⟨_, rfl, h⟩
          · next htype =>
            obtain ⟨properties, h⟩ := TypedAs.exists_record ⟨hall, hno, henum, htype⟩ hlisted
            exact ⟨_, rfl, h⟩
          · simp [Space.choices] at hv
  all_goals simp [Space.choices] at hv

/-! ## What the parts of a space come to -/

theorem mem_anyOf {c : Choice} {alternatives : List Json} :
    c ∈ (Space.anyOf (Space.ofSchemas alternatives)).toList ↔
      ∃ a ∈ alternatives, c ∈ (choices a).toList := by
  induction alternatives with
  | nil => simp [Space.ofSchemas, Space.anyOf]
  | cons a rest ih =>
    rw [Space.ofSchemas, Space.anyOf, Lazy.toList_append, List.mem_append, ih,
      List.exists_mem_cons_iff]
    rfl

/-- A value is listed for a position before listing had to give up there. -/
def ListedAt (a w : Json) : Prop :=
  Choice.value w ∈ Lazy.listThroughFirst Choice.isUnsupported (choices a).toList

/-- The lists that are listed take a value for each position. -/
theorem value_mem_lists {v : Json} {start items : List Json} :
    Choice.value v ∈ (Space.lists start (Space.ofSchemas items)).toList ↔
      ∃ ws, v = .arr (start ++ ws) ∧ List.Forall₂ ListedAt items ws := by
  induction items generalizing start with
  | nil => simp [Space.ofSchemas, Space.lists]
  | cons a rest ih =>
    rw [Space.ofSchemas, Space.lists, Lazy.toList_flatMap, List.mem_flatMap,
      Lazy.toList_throughFirst]
    constructor
    · rintro ⟨c, hc, hv⟩
      cases c with
      | unsupported => simp at hv
      | value w =>
        obtain ⟨ws, rfl, hws⟩ := ih.mp hv
        exact ⟨w :: ws, by rw [List.append_assoc, List.singleton_append], .cons hc hws⟩
    · rintro ⟨_, rfl, hws⟩
      cases hws with
      | @cons _ w _ ws hw hws =>
        refine ⟨.value w, hw, ih.mpr ⟨ws, ?_, hws⟩⟩
        rw [List.append_assoc, List.singleton_append]

/-- Members that take a listed value for each declared property, or leave out a property for which
listing had to give up. -/
inductive Picks : Members Json → Members Json → Prop
  | nil : Picks [] []
  | present {name : String} {a w : Json} {properties vs : Members Json}
    (hw : Choice.value w ∈ (choices a).toList) (hrest : Picks properties vs) :
    Picks ((name, a) :: properties) ((name, w) :: vs)
  | missing {name : String} {a : Json} {properties vs : Members Json}
    (ha : Choice.unsupported ∈ (choices a).toList) (hrest : Picks properties vs) :
    Picks ((name, a) :: properties) vs

/-- The objects that are listed pick from the properties. -/
theorem value_mem_objects {v : Json} {start properties : Members Json}
    (hkeys : (Members.keys start ++ Members.keys properties).Nodup) :
    Choice.value v ∈ (Space.objects start (Space.ofProperties properties)).toList ↔
      ∃ vs, v = .obj (start ++ vs) ∧ Picks properties vs := by
  induction properties generalizing start with
  | nil =>
    rw [Space.ofProperties, Space.objects, Lazy.toList_single, List.mem_singleton]
    constructor
    · intro hv
      obtain rfl := Choice.value.inj hv
      exact ⟨[], by rw [List.append_nil], .nil⟩
    · rintro ⟨_, rfl, ⟨⟩⟩
      rw [List.append_nil]
  | cons m rest ih =>
    obtain ⟨name, a⟩ := m
    -- the declared names are distinct, so a value is always set at the end
    obtain ⟨hnew, hmissing, hpresent⟩ := Members.nodup_keys_append_cons hkeys
    rw [Space.ofProperties, Space.objects, Lazy.toList_flatMap, List.mem_flatMap]
    constructor
    · rintro ⟨c, hc, hv⟩
      cases c with
      | unsupported =>
        obtain ⟨vs, rfl, hvs⟩ := (ih hmissing).mp hv
        exact ⟨vs, rfl, .missing hc hvs⟩
      | value w =>
        have hv : Choice.value v ∈
            (Space.objects (Members.set start name w) (Space.ofProperties rest)).toList := hv
        rw [Members.set_eq_append hnew] at hv
        obtain ⟨vs, rfl, hvs⟩ := (ih (hpresent w)).mp hv
        exact ⟨(name, w) :: vs, by rw [List.append_assoc, List.singleton_append],
          .present hc hvs⟩
    · rintro ⟨_, rfl, hvs⟩
      cases hvs with
      | @present _ _ w _ vs hw hvs =>
        refine ⟨.value w, hw, ?_⟩
        change _ ∈ (Space.objects (Members.set start name w) (Space.ofProperties rest)).toList
        rw [Members.set_eq_append hnew]
        refine (ih (hpresent w)).mpr ⟨vs, ?_, hvs⟩
        rw [List.append_assoc, List.singleton_append]
      | missing ha hvs => exact ⟨.unsupported, ha, (ih hmissing).mpr ⟨_, rfl, hvs⟩⟩

theorem Picks.keys_sublist {properties vs : Members Json} (h : Picks properties vs) :
    (Members.keys vs).Sublist (Members.keys properties) := by
  induction h with
  | nil => exact List.Sublist.refl _
  | present _ _ ih => exact ih.cons_cons _
  | missing _ _ ih => exact ih.cons _

/-- A picked value is listed for the property with its key. -/
theorem Picks.value_mem {properties vs : Members Json} (h : Picks properties vs)
    (hkeys : (Members.keys properties).Nodup) {name : String} {a w : Json}
    (ha : (name, a) ∈ properties) (hw : (name, w) ∈ vs) :
    Choice.value w ∈ (choices a).toList := by
  induction h with
  | nil => exact absurd ha List.not_mem_nil
  | present hlisted hrest ih =>
    obtain ⟨hname, hnames⟩ := List.nodup_cons.mp hkeys
    rcases List.mem_cons.mp ha with ha' | ha' <;> rcases List.mem_cons.mp hw with hw' | hw'
    · obtain ⟨rfl, rfl⟩ := Prod.mk.inj ha'
      obtain rfl := (Prod.mk.inj hw').2
      exact hlisted
    · obtain ⟨rfl, rfl⟩ := Prod.mk.inj ha'
      exact absurd (hrest.keys_sublist.subset (Members.mem_keys_of_mem hw')) hname
    · obtain ⟨rfl, rfl⟩ := Prod.mk.inj hw'
      exact absurd (Members.mem_keys_of_mem ha') hname
    · exact ih hnames ha' hw'
  | missing _ hrest ih =>
    obtain ⟨hname, hnames⟩ := List.nodup_cons.mp hkeys
    rcases List.mem_cons.mp ha with ha' | ha'
    · obtain ⟨rfl, rfl⟩ := Prod.mk.inj ha'
      exact absurd (hrest.keys_sublist.subset (Members.mem_keys_of_mem hw)) hname
    · exact ih hnames ha' hw

/-- Listing had to give up for a property that is left out. -/
theorem Picks.unsupported_mem {properties vs : Members Json} (h : Picks properties vs)
    {name : String} {a : Json} (ha : (name, a) ∈ properties) (hname : name ∉ Members.keys vs) :
    Choice.unsupported ∈ (choices a).toList := by
  induction h with
  | nil => exact absurd ha List.not_mem_nil
  | present _ _ ih =>
    obtain ⟨hne, hname⟩ := not_or.mp (mt List.mem_cons.mpr hname)
    rcases List.mem_cons.mp ha with ha | ha
    · exact absurd (congrArg Prod.fst ha) hne
    · exact ih ha hname
  | missing hgave _ ih =>
    rcases List.mem_cons.mp ha with ha | ha
    · cases ha
      exact hgave
    · exact ih ha hname

/-- Members whose keys are some of the declared names in their order pick from the properties, if
each of their values is listed and each missing property had to be given up. -/
theorem picks_of_keys_sublist {properties vs : Members Json}
    (hkeys : (Members.keys properties).Nodup)
    (hsub : (Members.keys vs).Sublist (Members.keys properties))
    (hlisted : ∀ name a w, (name, a) ∈ properties → (name, w) ∈ vs →
      Choice.value w ∈ (choices a).toList)
    (hmissing : ∀ name a, (name, a) ∈ properties → name ∉ Members.keys vs →
      Choice.unsupported ∈ (choices a).toList) : Picks properties vs := by
  induction properties generalizing vs with
  | nil =>
    obtain rfl : vs = [] := List.map_eq_nil_iff.mp (List.sublist_nil.mp hsub)
    exact .nil
  | cons m rest ih =>
    obtain ⟨name, a⟩ := m
    obtain ⟨hname, hnames⟩ := List.nodup_cons.mp hkeys
    -- the first declared name is missing altogether, or it is the first key
    rcases List.sublist_cons_iff.mp hsub with hsub | ⟨names, hvs, hsub⟩
    · have hleft : name ∉ Members.keys vs := fun h => hname (hsub.subset h)
      refine .missing (hmissing name a List.mem_cons_self hleft) (ih hnames hsub ?_ ?_)
      · exact fun n b w hb hw => hlisted n b w (List.mem_cons_of_mem _ hb) hw
      · exact fun n b hb hn => hmissing n b (List.mem_cons_of_mem _ hb) hn
    · obtain ⟨⟨_, w⟩, vs, rfl, rfl, rfl⟩ := List.map_eq_cons_iff.mp hvs
      refine .present (hlisted _ a w List.mem_cons_self List.mem_cons_self) (ih hnames hsub ?_ ?_)
      · exact fun n b w hb hw =>
          hlisted n b w (List.mem_cons_of_mem _ hb) (List.mem_cons_of_mem _ hw)
      · intro n b hb hn
        refine hmissing n b (List.mem_cons_of_mem _ hb) fun h => ?_
        rcases List.mem_cons.mp h with hsame | h
        · exact hname (hsame ▸ Members.mem_keys_of_mem hb)
        · exact hn h

/-! ## What a schema with a shape lists -/

section Listed

variable {members : Members Json} {v : Json}

theorem mem_choices_of_choice {alternatives : List Json}
    (h : HasShape members (.choice alternatives)) {c : Choice} :
    c ∈ (choices (.obj members)).toList ↔ ∃ a ∈ alternatives, c ∈ (choices a).toList := by
  rw [choices, ofSchema_of_hasShape h, Shape.space, Space.choices, mem_anyOf]

theorem mem_choices_of_literals {values : List Json}
    (h : HasShape members (.literals values)) :
    Choice.value v ∈ (choices (.obj members)).toList ↔ v ∈ values := by
  rw [choices, ofSchema_of_hasShape h, Shape.space, Space.choices, Lazy.toList_ofList]
  exact List.mem_map_of_injective fun _ _ => Choice.value.inj

theorem mem_choices_of_boolean (h : HasShape members .boolean) :
    Choice.value v ∈ (choices (.obj members)).toList ↔ ∃ b, v = .bool b := by
  rw [choices, ofSchema_of_hasShape h, Shape.space, Space.choices, Lazy.toList_ofList]
  simp [or_comm]

theorem mem_choices_of_tuple {items : List Json} (h : HasShape members (.tuple items)) :
    Choice.value v ∈ (choices (.obj members)).toList ↔
      ∃ ws, v = .arr ws ∧ List.Forall₂ ListedAt items ws := by
  have hlists : Choice.value v ∈ (Space.lists [] (Space.ofSchemas items)).toList ↔ _ :=
    value_mem_lists
  rw [choices, ofSchema_of_hasShape h, Shape.space]
  cases h with
  | tuple _ _ hne =>
    obtain ⟨a, rest, rfl⟩ := List.exists_cons_of_ne_nil hne
    rw [Space.ofSchemas] at hlists
    rw [Space.ofSchemas, Space.choices]
    exact hlists

theorem mem_choices_of_record {properties : Members Json}
    (h : HasShape members (.record properties)) (hkeys : (Members.keys properties).Nodup) :
    Choice.value v ∈ (choices (.obj members)).toList ↔
      ∃ vs, v = .obj vs ∧ Picks properties vs := by
  have hobjects : Choice.value v ∈ (Space.objects [] (Space.ofProperties properties)).toList ↔ _ :=
    value_mem_objects hkeys
  rw [choices, ofSchema_of_hasShape h, Shape.space]
  cases h with
  | record _ _ _ hne =>
    obtain ⟨m, rest, rfl⟩ := List.exists_cons_of_ne_nil hne
    rw [Space.ofProperties] at hobjects
    rw [Space.ofProperties, Space.choices]
    exact hobjects

end Listed

/-! ## Fitting -/

/-- A value has the form that a schema describes. -/
inductive Fits : Json → Json → Prop
  | choice {members : Members Json} {alternatives : List Json} {a v : Json}
    (h : HasShape members (.choice alternatives)) (ha : a ∈ alternatives) (hfit : Fits a v) :
    Fits (.obj members) v
  | literal {members : Members Json} {values : List Json} {v : Json}
    (h : HasShape members (.literals values)) (hv : v ∈ values) : Fits (.obj members) v
  | boolean {members : Members Json} (h : HasShape members .boolean) (b : Bool) :
    Fits (.obj members) (.bool b)
  | tuple {members : Members Json} {items ws : List Json}
    (h : HasShape members (.tuple items)) (hlength : ws.length = items.length)
    (hfit : ∀ (i : Nat) (a w : Json), items[i]? = some a → ws[i]? = some w → Fits a w) :
    Fits (.obj members) (.arr ws)
  | record {members properties vs : Members Json}
    (h : HasShape members (.record properties))
    (hkeys : (Members.keys vs).Sublist (Members.keys properties))
    (hfit : ∀ (name : String) (a w : Json), (name, a) ∈ properties → (name, w) ∈ vs → Fits a w)
    (hmissing : ∀ name a, (name, a) ∈ properties → name ∉ Members.keys vs →
      Choice.unsupported ∈ (choices a).toList) :
    Fits (.obj members) (.obj vs)

/-- A schema is made of the schemas that its shape is made of. -/
inductive Part : Json → Json → Prop
  | intro {members : Members Json} {shape : Shape} {a : Json} (h : HasShape members shape)
    (ha : a ∈ shape.parts) : Part (.obj members) a

/-- Nowhere inside the schema does listing have to give up at a position of a list. -/
def Unbroken (s : Json) : Prop :=
  ∀ members items a, Relation.ReflTransGen Part s (.obj members) →
    HasShape members (.tuple items) → a ∈ items → Choice.unsupported ∉ (choices a).toList

theorem Unbroken.part {s t : Json} (hs : Unbroken s) (h : Part s t) : Unbroken t :=
  fun members items a hinside => hs members items a (hinside.head h)

theorem exists_mem_of_alternativesOf {members : Members Json} {v : Json}
    (h : Space.alternativesOf members = some v) : ∃ key, (key, v) ∈ members := by
  unfold Space.alternativesOf at h
  split at h
  · next hv =>
    cases h
    exact ⟨_, Members.mem_of_get? hv⟩
  · exact ⟨_, Members.mem_of_get? h⟩

/-- A part of a schema stands in a list or an object among its members. -/
theorem HasShape.exists_mem {members : Members Json} {shape : Shape} {a : Json}
    (h : HasShape members shape) (ha : a ∈ shape.parts) :
    (∃ key items, (key, Json.arr items) ∈ members ∧ a ∈ items) ∨
      ∃ key name properties, (key, Json.obj properties) ∈ members ∧ (name, a) ∈ properties := by
  cases h with
  | choice _ h =>
    obtain ⟨key, hkey⟩ := exists_mem_of_alternativesOf h
    exact Or.inl ⟨key, _, hkey, ha⟩
  | literals => exact absurd ha List.not_mem_nil
  | boolean => exact absurd ha List.not_mem_nil
  | tuple _ hitems _ => exact Or.inl ⟨_, _, Members.mem_of_get? hitems, ha⟩
  | record _ _ hproperties _ =>
    obtain ⟨⟨name, _⟩, hm, rfl⟩ := List.mem_map.mp ha
    exact Or.inr ⟨_, name, _, Members.mem_of_get? hproperties, hm⟩

/-- A part is smaller than its schema. -/
theorem Part.sizeOf_lt {s t : Json} (h : Part s t) : sizeOf t < sizeOf s := by
  obtain ⟨h, ht⟩ := h
  rcases h.exists_mem ht with ⟨key, items, hmem, ht⟩ | ⟨key, name, properties, hmem, ht⟩
  · have hmember := List.sizeOf_lt_of_mem hmem
    have hitem := List.sizeOf_lt_of_mem ht
    simp at hmember hitem ⊢
    omega
  · have hmember := List.sizeOf_lt_of_mem hmem
    have hproperty := List.sizeOf_lt_of_mem ht
    simp at hmember hproperty ⊢
    omega

/-- A schema is never a part of a part of itself, however deep. -/
theorem wellFounded_part : WellFounded fun t s => Part s t :=
  Subrelation.wf (fun h => Part.sizeOf_lt h) (measure (sizeOf : Json → Nat)).wf

/-- The parts of a proper schema are proper. -/
theorem Part.proper {s t : Json} (h : Part s t) (hs : s.Proper) : t.Proper := by
  obtain ⟨h, ht⟩ := h
  have hvalues := (Json.proper_obj.mp hs).2
  rcases h.exists_mem ht with ⟨key, items, hmem, ht⟩ | ⟨key, name, properties, hmem, ht⟩
  · exact Json.proper_arr.mp (hvalues _ hmem) t ht
  · exact (Json.proper_obj.mp (hvalues _ hmem)).2 _ ht

/-- The declared names of a proper schema are distinct. -/
theorem HasShape.nodup_keys {members properties : Members Json}
    (h : HasShape members (.record properties)) (hs : (Json.obj members).Proper) :
    (Members.keys properties).Nodup := by
  cases h with
  | record _ _ hproperties _ =>
    exact (Json.proper_obj.mp ((Json.proper_obj.mp hs).2 _ (Members.mem_of_get? hproperties))).1

/-! ## Listed values fit, and fitting values are listed -/

/-- Lists are related item by item when they are as long as each other and related at each
place. -/
theorem forall₂_iff_getElem? {α β : Type} {R : α → β → Prop} {as : List α} {bs : List β} :
    List.Forall₂ R as bs ↔ bs.length = as.length ∧
      ∀ (i : Nat) (a : α) (b : β), as[i]? = some a → bs[i]? = some b → R a b := by
  rw [List.forall₂_iff_get, eq_comm]
  refine and_congr_right fun hlength => ⟨fun h i a b ha hb => ?_, fun h i ha hb => ?_⟩
  · obtain ⟨hi, rfl⟩ := List.getElem?_eq_some_iff.mp ha
    obtain ⟨hj, rfl⟩ := List.getElem?_eq_some_iff.mp hb
    exact h i hi hj
  · exact h i _ _ (List.getElem?_eq_getElem ha) (List.getElem?_eq_getElem hb)

/-- A listed value fits. -/
theorem fits_of_mem_choices {s v : Json} (hs : s.Proper)
    (hv : Choice.value v ∈ (choices s).toList) : Fits s v := by
  induction s using wellFounded_part.induction generalizing v with
  | _ s ih =>
    obtain ⟨members, shape, rfl, hshape⟩ := exists_hasShape hv
    cases shape with
    | choice alternatives =>
      obtain ⟨a, ha, hv⟩ := (mem_choices_of_choice hshape).mp hv
      have hpart := Part.intro hshape ha
      exact .choice hshape ha (ih a hpart (hpart.proper hs) hv)
    | literals values => exact .literal hshape ((mem_choices_of_literals hshape).mp hv)
    | boolean =>
      obtain ⟨b, rfl⟩ := (mem_choices_of_boolean hshape).mp hv
      exact .boolean hshape b
    | tuple items =>
      obtain ⟨ws, rfl, hws⟩ := (mem_choices_of_tuple hshape).mp hv
      obtain ⟨hlength, hlisted⟩ := forall₂_iff_getElem?.mp hws
      refine .tuple hshape hlength fun i a w ha hw => ?_
      have hpart := Part.intro hshape (List.mem_of_getElem? ha)
      exact ih a hpart (hpart.proper hs)
        (Lazy.mem_of_mem_listThroughFirst (hlisted i a w ha hw))
    | record properties =>
      have hkeys := hshape.nodup_keys hs
      obtain ⟨vs, rfl, hvs⟩ := (mem_choices_of_record hshape hkeys).mp hv
      refine .record hshape hvs.keys_sublist ?_ fun name a ha => hvs.unsupported_mem ha
      intro name a w ha hw
      have hpart := Part.intro hshape (List.mem_map_of_mem ha)
      exact ih a hpart (hpart.proper hs) (hvs.value_mem hkeys ha hw)

/-- A value that fits an unbroken schema is listed. -/
theorem mem_choices_of_fits {s v : Json} (hfits : Fits s v) (hs : s.Proper)
    (hunbroken : Unbroken s) : Choice.value v ∈ (choices s).toList := by
  induction hfits with
  | choice h ha _ ih =>
    have hpart := Part.intro h ha
    exact (mem_choices_of_choice h).mpr ⟨_, ha, ih (hpart.proper hs) (hunbroken.part hpart)⟩
  | literal h hv => exact (mem_choices_of_literals h).mpr hv
  | boolean h b => exact (mem_choices_of_boolean h).mpr ⟨b, rfl⟩
  | tuple h hlength _ ih =>
    refine (mem_choices_of_tuple h).mpr ⟨_, rfl, forall₂_iff_getElem?.mpr ⟨hlength, ?_⟩⟩
    intro i a w ha hw
    have hmem := List.mem_of_getElem? ha
    have hpart := Part.intro h hmem
    have hall : ∀ c ∈ (choices a).toList, c.isUnsupported = false := by
      intro c hc
      cases c with
      | value _ => rfl
      | unsupported => exact absurd hc (hunbroken _ _ a .refl h hmem)
    rw [ListedAt, Lazy.listThroughFirst_eq_self hall]
    exact ih i a w ha hw (hpart.proper hs) (hunbroken.part hpart)
  | record h hkeys _ hmissing ih =>
    refine (mem_choices_of_record h (h.nodup_keys hs)).mpr ⟨_, rfl,
      picks_of_keys_sublist (h.nodup_keys hs) hkeys ?_ hmissing⟩
    intro name a w ha hw
    have hpart := Part.intro h (List.mem_map_of_mem ha)
    exact ih name a w ha hw (hpart.proper hs) (hunbroken.part hpart)

/-- **What is listed for a schema.**  Every value that is listed for a proper schema fits it.  If in
no list inside the schema listing has to give up at a position, every value that fits it is
listed. -/
theorem choices_fit_and_exhaust {s : Json} (hs : s.Proper) :
    (∀ v, Choice.value v ∈ (choices s).toList → Fits s v) ∧
      (Unbroken s → ∀ v, Fits s v → Choice.value v ∈ (choices s).toList) :=
  ⟨fun _ hv => fits_of_mem_choices hs hv, fun hunbroken _ hv => mem_choices_of_fits hv hs hunbroken⟩

/-! ## A schema whose list has a record with a property that cannot be listed -/

/-- A schema is unbroken if listing has to give up neither at a position of its own nor inside its
parts. -/
theorem unbroken_of_hasShape {members : Members Json} {shape : Shape} (h : HasShape members shape)
    (hpositions : ∀ items, shape = .tuple items → ∀ a ∈ items,
      Choice.unsupported ∉ (choices a).toList)
    (hparts : ∀ a ∈ shape.parts, Unbroken a) : Unbroken (.obj members) := by
  intro members' items a hinside hshape ha
  rcases hinside.cases_head with heq | ⟨t, hpart, hrest⟩
  · obtain rfl := Json.obj.inj heq
    exact hpositions items (h.unique hshape) a ha
  · cases hpart with
    | intro h' ht =>
      obtain rfl := h.unique h'
      exact hparts t ht members' items a hrest hshape ha

/-- A schema without a shape has no parts. -/
theorem unbroken_of_no_shape {members : Members Json} (h : ∀ shape, ¬ HasShape members shape) :
    Unbroken (.obj members) := by
  intro members' items a hinside hshape _
  rcases hinside.cases_head with heq | ⟨t, hpart, -⟩
  · obtain rfl := Json.obj.inj heq
    exact absurd hshape (h _)
  · cases hpart with
    | intro h' _ => exact absurd h' (h _)

/-- A record with a property that is listed and one that is not. -/
def flagsMembers : Members Json :=
  [("type", .str "object"),
    ("properties", .obj [("deep", .obj [("type", .str "boolean")]),
      ("name", .obj [("type", .str "string")])])]

/-- One of two words. -/
def wordMembers : Members Json := [("enum", .arr [.str "always", .str "never"])]

/-- A list of two positions. -/
def pairMembers : Members Json :=
  [("type", .str "array"), ("items", .arr [.obj wordMembers, .obj flagsMembers])]

theorem hasShape_flagsMembers : HasShape flagsMembers
    (.record [("deep", .obj [("type", .str "boolean")]),
      ("name", .obj [("type", .str "string")])]) :=
  .record ⟨rfl, rfl, rfl, rfl⟩ rfl rfl (by simp)

theorem hasShape_wordMembers :
    HasShape wordMembers (.literals [.str "always", .str "never"]) :=
  .literals rfl rfl rfl

theorem hasShape_pairMembers :
    HasShape pairMembers (.tuple [.obj wordMembers, .obj flagsMembers]) :=
  .tuple ⟨rfl, rfl, rfl, rfl⟩ rfl (by simp)

theorem toList_choices_wordMembers : (choices (.obj wordMembers)).toList =
    [.value (.str "always"), .value (.str "never")] := by
  simp [choices, ofSchema_of_hasShape hasShape_wordMembers, Shape.space, Space.choices]

theorem toList_choices_flagsMembers : (choices (.obj flagsMembers)).toList =
    [.value (.obj [("deep", .bool true)]), .value (.obj [("deep", .bool false)])] := by
  simp [choices, flagsMembers, Space.ofSchema, Space.ofProperties, Space.alternativesOf,
    Space.isOpen, Space.choices, Space.objects, Members.has, Members.get?]

/-- The property that cannot be listed is left out of the record, so the list is not cut short. -/
theorem unbroken_pairMembers : Unbroken (.obj pairMembers) := by
  have hdeep : HasShape [("type", .str "boolean")] .boolean := .boolean ⟨rfl, rfl, rfl, rfl⟩
  have hname : ∀ shape, ¬ HasShape [("type", .str "string")] shape := by
    intro shape h
    rcases h with ⟨_, h⟩ | ⟨_, _, h⟩ | ⟨⟨_, _, _, h⟩⟩ | ⟨⟨_, _, _, h⟩⟩ | ⟨⟨_, _, _, h⟩⟩ <;>
      simp [Space.alternativesOf, Members.get?] at h
  have hwordUnbroken : Unbroken (.obj wordMembers) :=
    unbroken_of_hasShape hasShape_wordMembers (by simp) (by simp [Shape.parts])
  have hflagsUnbroken : Unbroken (.obj flagsMembers) := by
    refine unbroken_of_hasShape hasShape_flagsMembers (by simp) ?_
    simp only [Shape.parts, List.map_cons, List.map_nil, List.forall_mem_cons]
    exact ⟨unbroken_of_hasShape hdeep (by simp) (by simp [Shape.parts]),
      unbroken_of_no_shape hname, by simp⟩
  refine unbroken_of_hasShape hasShape_pairMembers ?_ ?_
  · rintro _ ⟨rfl⟩
    simp [toList_choices_wordMembers, toList_choices_flagsMembers]
  · simp only [Shape.parts, List.forall_mem_cons]
    exact ⟨hwordUnbroken, hflagsUnbroken, by simp⟩

theorem choices_fit_and_exhaust_pairMembers :
    (Json.obj pairMembers).Proper ∧ Unbroken (.obj pairMembers) ∧
      Fits (.obj pairMembers) (.arr [.str "never", .obj [("deep", .bool false)]]) ∧
      Choice.value (.arr [.str "never", .obj [("deep", .bool false)]]) ∈
        (choices (.obj pairMembers)).toList := by
  have hproper : (Json.obj pairMembers).Proper := by
    simp [pairMembers, flagsMembers, wordMembers, Json.Proper, Json.ProperItems,
      Json.ProperMembers, Members.keys]
  have hword : Fits (.obj wordMembers) (.str "never") :=
    .literal hasShape_wordMembers (by simp)
  have hflags : Fits (.obj flagsMembers) (.obj [("deep", .bool false)]) := by
    refine .record hasShape_flagsMembers (by decide) ?_ ?_
    · intro name a w ha hw
      obtain ⟨rfl, rfl⟩ := Prod.mk.inj (List.mem_singleton.mp hw)
      obtain rfl : a = .obj [("type", .str "boolean")] := by simpa using ha
      exact .boolean (.boolean ⟨rfl, rfl, rfl, rfl⟩) false
    · intro name a ha hname
      rcases List.mem_cons.mp ha with ha' | ha'
      · obtain ⟨rfl, rfl⟩ := Prod.mk.inj ha'
        exact absurd (by decide) hname
      · obtain ⟨rfl, rfl⟩ := Prod.mk.inj (List.mem_singleton.mp ha')
        simp [choices, Space.ofSchema, Space.alternativesOf, Space.choices, Members.has,
          Members.get?]
  have hfits : Fits (.obj pairMembers) (.arr [.str "never", .obj [("deep", .bool false)]]) := by
    refine .tuple hasShape_pairMembers rfl fun i a w ha hw => ?_
    rcases i with _ | _ | i
    · obtain rfl := Option.some.inj ha
      obtain rfl := Option.some.inj hw
      exact hword
    · obtain rfl := Option.some.inj ha
      obtain rfl := Option.some.inj hw
      exact hflags
    · exact absurd ha (by simp)
  exact ⟨hproper, unbroken_pairMembers, hfits,
    (choices_fit_and_exhaust hproper).2 unbroken_pairMembers _ hfits⟩

end LintSetup.Options
