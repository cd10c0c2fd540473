import LintSetup.Proofs.Json.Order
import LintSetup.Proofs.Options.Interruptions
import Mathlib.Algebra.Ring.Nat

/-!
# The order in which lists and objects are listed

The elements of a list schema take a value for each position, and those of an object schema a choice
for each property.  Listing goes through the last position before it goes on at the one before, and
so the elements come in the order in which numbers are counted: the element with the number `k` takes
at each position what stands at a digit of `k`, where the radix of a position is how many elements
the position has.

* `combinations` --- one element of each of several lists, in all ways.
* `digits`, `Takes` --- the digits of a number in given radices, and the elements that digits stand
  for.  Radices may be nought, and then there is nothing to be counted.
* `IsProduct` --- elements that are made of the combinations of factors, with their number, their
  order, and what keeps them apart.

A list schema lists the product of its positions when none of them has an unsupported part.  An
object schema always lists the product of its properties; an unsupported element of a property counts
as one of its digits and leaves the property out.  Both are `isProduct_choices`.

## When elements are different

Whether two values count as the same depends on whether the order of the members of an object does.
It makes no difference here: elements are kept apart by what they take at one position or property,
and all that is used of a notion of sameness is that it looks into lists and objects
(`LooksInside`).  Equality is such a notion, and so is equality up to the order of members.
-/

namespace LintSetup.Options

/-! ## Combinations -/

section Combinations

variable {α β : Type}

/-- One element of each list, in all ways; the last one varies fastest. -/
def combinations : List (List α) → List (List α)
  | [] => [[]]
  | as :: rest => as.flatMap fun a => (combinations rest).map (a :: ·)

/-- The digits of a number in given radices, the last of which has the least weight. -/
def digits : List Nat → Nat → List Nat
  | [], _ => []
  | _ :: radices, k => k / radices.prod :: digits radices (k % radices.prod)

/-- Digits stand for elements: of each list, the one at the place that a digit gives. -/
inductive Takes : List (List α) → List Nat → List α → Prop
  | nil : Takes [] [] []
  | cons {a : α} {as : List α} {d : Nat} {lists : List (List α)} {ds : List Nat} {rest : List α}
    (ha : as[d]? = some a) (hrest : Takes lists ds rest) :
    Takes (as :: lists) (d :: ds) (a :: rest)

/-- Digits stand for one element of each list. -/
theorem Takes.unique {lists : List (List α)} {ds : List Nat} {as bs : List α}
    (has : Takes lists ds as) (hbs : Takes lists ds bs) : as = bs := by
  induction has generalizing bs with
  | nil =>
    cases hbs with
    | nil => rfl
  | cons ha _ ih =>
    cases hbs with
    | cons hb hrest => rw [Option.some.inj (ha.symm.trans hb), ih hrest]

theorem length_combinations (lists : List (List α)) :
    (combinations lists).length = (lists.map List.length).prod := by
  induction lists with
  | nil => rfl
  | cons as rest ih =>
    have hlength : ∀ a, ((combinations rest).map (a :: ·)).length = (rest.map List.length).prod :=
      fun a => by rw [List.length_map, ih]
    rw [combinations, List.length_flatMap, funext hlength, List.map_const', List.sum_replicate_nat,
      List.map_cons, List.prod_cons]

/-- A combination has one element of each list. -/
theorem forall₂_of_mem_combinations {lists : List (List α)} {as : List α}
    (h : as ∈ combinations lists) : List.Forall₂ (· ∈ ·) as lists := by
  induction lists generalizing as with
  | nil =>
    obtain rfl := List.mem_singleton.mp h
    exact .nil
  | cons bs rest ih =>
    obtain ⟨b, hb, h⟩ := List.mem_flatMap.mp h
    obtain ⟨more, hmore, rfl⟩ := List.mem_map.mp h
    exact .cons hb (ih hmore)

/-- In parts of one length put together, a number gives the part and the place in it. -/
theorem getElem?_flatMap {f : α → List β} {n : Nat} (hn : 0 < n) (hf : ∀ a, (f a).length = n)
    (as : List α) (k : Nat) :
    (as.flatMap f)[k]? = as[k / n]?.bind fun a => (f a)[k % n]? := by
  induction as generalizing k with
  | nil => simp
  | cons a rest ih =>
    rw [List.flatMap_cons]
    by_cases hk : k < n
    · rw [List.getElem?_append_left ((hf a).symm ▸ hk), Nat.div_eq_of_lt hk, Nat.mod_eq_of_lt hk]
      rfl
    · have hge : n ≤ k := Nat.le_of_not_lt hk
      rw [List.getElem?_append_right ((hf a).symm ▸ hge), hf a, ih, Nat.div_eq_sub_div hn hge,
        ← Nat.mod_eq_sub_mod hge, List.getElem?_cons_succ]

/-- **Combinations are counted.**  The combination with a number takes what stands at the digits of
the number. -/
theorem getElem?_combinations {lists : List (List α)} {k : Nat}
    (hk : k < (lists.map List.length).prod) :
    ∃ as, Takes lists (digits (lists.map List.length) k) as ∧ (combinations lists)[k]? = some as := by
  induction lists generalizing k with
  | nil =>
    obtain rfl : k = 0 := Nat.lt_one_iff.mp hk
    exact ⟨[], .nil, rfl⟩
  | cons as rest ih =>
    rw [List.map_cons, List.prod_cons] at hk
    have hpos : 0 < (rest.map List.length).prod :=
      Nat.pos_of_ne_zero fun hzero => absurd hk (by rw [hzero]; omega)
    obtain ⟨more, htakes, hmore⟩ := ih (Nat.mod_lt k hpos)
    have hdigit : k / (rest.map List.length).prod < as.length := (Nat.div_lt_iff_lt_mul hpos).mpr hk
    refine ⟨as[k / (rest.map List.length).prod] :: more,
      .cons (List.getElem?_eq_getElem hdigit) htakes, ?_⟩
    have hlength : ∀ a, ((combinations rest).map (a :: ·)).length = (rest.map List.length).prod :=
      fun a => by rw [List.length_map, length_combinations]
    rw [combinations, getElem?_flatMap hpos hlength, List.getElem?_eq_getElem hdigit,
      Option.bind_some, List.getElem?_map, hmore, Option.map_some]

/-- Combinations differ somewhere, when no list has the same element twice. -/
theorem pairwise_combinations {Same : α → α → Prop} {lists : List (List α)}
    (h : ∀ as ∈ lists, as.Pairwise fun a b => ¬ Same a b) :
    (combinations lists).Pairwise fun as bs => ¬ List.Forall₂ Same as bs := by
  induction lists with
  | nil => exact List.pairwise_singleton _ _
  | cons as rest ih =>
    rw [List.forall_mem_cons] at h
    rw [combinations, List.pairwise_flatMap]
    constructor
    · intro a _
      rw [List.pairwise_map]
      exact (ih h.2).imp fun hne hsame => hne (List.forall₂_cons.mp hsame).2
    · refine h.1.imp fun hne x hx y hy hsame => ?_
      obtain ⟨xs, -, rfl⟩ := List.mem_map.mp hx
      obtain ⟨ys, -, rfl⟩ := List.mem_map.mp hy
      exact hne (List.forall₂_cons.mp hsame).1

end Combinations

/-! ## Sameness -/

/-- A notion of sameness looks into lists and objects: lists that are the same have the same items,
and objects that are the same have the same value, or none, under every key. -/
structure LooksInside (Same : Json → Json → Prop) : Prop where
  arr {vs ws : List Json} : Same (.arr vs) (.arr ws) → List.Forall₂ Same vs ws
  obj {ms ns : Members Json} : Same (.obj ms) (.obj ns) →
    ∀ key, Option.Rel Same (Members.get? ms key) (Members.get? ns key)

theorem looksInside_eq : LooksInside Eq where
  arr := by
    rintro vs _ ⟨rfl⟩
    exact List.forall₂_same.mpr fun _ _ => rfl
  obj := by
    rintro ms _ ⟨rfl⟩ key
    cases Members.get? ms key with
    | none => exact .none
    | some v => exact .some rfl

theorem looksInside_equalUpToOrder : LooksInside Json.EqualUpToOrder where
  arr := Json.equalUpToOrder_arr_iff.mp
  obj := by
    intro ms ns hsame key
    obtain ⟨hkeys, hvalues⟩ := Json.equalUpToOrder_obj_iff.mp hsame
    have hhas : Members.has ms key = Members.has ns key := by
      rw [Bool.eq_iff_iff, Members.has_iff_mem_keys, Members.has_iff_mem_keys, hkeys.mem_iff]
    rw [Members.has, Members.has] at hhas
    cases hv : Members.get? ms key with
    | none =>
      rw [hv, Option.isSome_none] at hhas
      rw [Option.not_isSome_iff_eq_none.mp (Bool.eq_false_iff.mp hhas.symm)]
      exact .none
    | some v =>
      rw [hv, Option.isSome_some] at hhas
      obtain ⟨w, hw⟩ := Option.isSome_iff_exists.mp hhas.symm
      rw [hw]
      exact .some (hvalues key v w hv hw)

/-- No two elements have the same value, or are both unsupported. -/
def Apart (Same : Json → Json → Prop) (elements : List Choice) : Prop :=
  elements.Pairwise fun c d => ¬ Option.Rel Same c.value? d.value?

theorem nodup_of_apart_eq {elements : List Choice} (h : Apart Eq elements) : elements.Nodup := by
  refine h.imp fun {c d} hapart hsame => hapart ?_
  rw [hsame]
  cases d.value? with
  | none => exact .none
  | some v => exact .some rfl

theorem apart_eq_of_nodup {elements : List Choice} (h : elements.Nodup) : Apart Eq elements := by
  refine h.imp fun {c d} hne hsame => hne ?_
  cases c with
  | unsupported =>
    cases d with
    | unsupported => rfl
    | value w => nomatch hsame
  | value v =>
    cases d with
    | unsupported => nomatch hsame
    | value w =>
      cases hsame with
      | some hvw => rw [hvw]

/-! ## Products -/

/-- Elements are the product of factors, where `Makes` says which value a combination makes: there is
one for each combination, they stand in the order of the numbers, and they differ when those of each
factor do. -/
structure IsProduct (factors : List (List Choice)) (Makes : List Choice → Json → Prop)
    (elements : List Choice) : Prop where
  length : elements.length = (factors.map List.length).prod
  getElem? : ∀ k < (factors.map List.length).prod, ∃ cs v,
    Takes factors (digits (factors.map List.length) k) cs ∧ Makes cs v ∧
      elements[k]? = some (.value v)
  nodup : (∀ f ∈ factors, f.Nodup) → elements.Nodup
  apart : ∀ Same, LooksInside Same → (∀ f ∈ factors, Apart Same f) → Apart Same elements

/-- Elements that are made of the combinations one by one are their product, if what is made tells
the combination. -/
theorem isProduct_map {factors : List (List Choice)} {Makes : List Choice → Json → Prop}
    {make : List Choice → Json} (hmakes : ∀ cs ∈ combinations factors, Makes cs (make cs))
    (htells : ∀ Same, LooksInside Same → ∀ cs ∈ combinations factors, ∀ ds ∈ combinations factors,
      Same (make cs) (make ds) → List.Forall₂ (fun c d => Option.Rel Same c.value? d.value?) cs ds) :
    IsProduct factors Makes ((combinations factors).map fun cs => .value (make cs)) := by
  have hapart : ∀ Same, LooksInside Same → (∀ f ∈ factors, Apart Same f) →
      Apart Same ((combinations factors).map fun cs => .value (make cs)) := by
    intro Same hlooks hfactors
    have hdiffer := pairwise_combinations hfactors
    rw [Apart, List.pairwise_map]
    refine hdiffer.imp_of_mem fun {cs ds} hcs hds hne hsame => hne ?_
    cases hsame with
    | some hsame => exact htells Same hlooks cs hcs ds hds hsame
  constructor
  · rw [List.length_map, length_combinations]
  · intro k hk
    obtain ⟨cs, htakes, hcs⟩ := getElem?_combinations hk
    refine ⟨cs, make cs, htakes, hmakes cs (List.mem_of_getElem? hcs), ?_⟩
    rw [List.getElem?_map, hcs, Option.map_some]
  · intro hnodup
    exact nodup_of_apart_eq (hapart Eq looksInside_eq fun f hf => apart_eq_of_nodup (hnodup f hf))
  · exact hapart

/-! ## Lists -/

/-- What is listed for each of several schemas. -/
def listedOf (schemas : List Json) : List (List Choice) := schemas.map fun a => (choices a).toList

/-- The values of choices. -/
def valuesOf (cs : List Choice) : List Json := cs.filterMap Choice.value?

/-- Positions without unsupported parts are listed in all combinations. -/
theorem toList_lists {items : List Json} (h : ∀ a ∈ items, .unsupported ∉ (choices a).toList)
    (start : List Json) :
    (Space.lists start (Space.ofSchemas items)).toList =
      (combinations (listedOf items)).map fun cs => .value (.arr (start ++ valuesOf cs)) := by
  induction items generalizing start with
  | nil => simp [Space.ofSchemas, Space.lists, listedOf, combinations, valuesOf]
  | cons a rest ih =>
    rw [List.forall_mem_cons] at h
    have hgives : givesUp (choices a).toList = false :=
      Bool.eq_false_iff.mpr fun hgives => h.1 (givesUp_iff.mp hgives)
    have hmarker : marker (choices a).toList = [] := by
      rw [marker, hgives, if_neg Bool.false_ne_true]
    have hlisted : listedOf (a :: rest) =
        (valuesBefore (choices a).toList).map .value :: listedOf rest := by
      rw [map_valuesBefore hgives]
      rfl
    rw [toList_lists_cons, hmarker, List.append_nil, hlisted, combinations, List.flatMap_map,
      List.map_flatMap]
    refine congrArg (List.flatMap · _) (funext fun v => ?_)
    rw [ih h.2, List.map_map]
    refine congrArg (List.map · _) (funext fun cs => ?_)
    simp [valuesOf, Choice.value?]

theorem map_valuesOf {cs : List Choice} (h : .unsupported ∉ cs) :
    (valuesOf cs).map .value = cs := by
  induction cs with
  | nil => rfl
  | cons c rest ih =>
    obtain ⟨hc, hrest⟩ := not_or.mp (mt List.mem_cons.mpr h)
    cases c with
    | unsupported => exact absurd rfl hc
    | value v => exact congrArg (Choice.value v :: ·) (ih hrest)

/-! ## Objects -/

/-- The members that choices for declared names make: an unsupported choice leaves its name out. -/
def membersOf : List String → List Choice → Members Json
  | name :: names, .value v :: cs => (name, v) :: membersOf names cs
  | _ :: names, .unsupported :: cs => membersOf names cs
  | _, _ => []

/-- The names that are not left out keep their order. -/
theorem keys_membersOf_sublist (names : List String) (cs : List Choice) :
    (Members.keys (membersOf names cs)).Sublist names := by
  induction names generalizing cs with
  | nil => exact List.Sublist.refl []
  | cons name names ih =>
    cases cs with
    | nil => exact List.nil_sublist _
    | cons c cs =>
      cases c with
      | unsupported => exact (ih cs).cons name
      | value v => exact (ih cs).cons_cons name

/-- Properties are listed in all combinations. -/
theorem toList_objects {properties start : Members Json}
    (hkeys : (Members.keys start ++ Members.keys properties).Nodup) :
    (Space.objects start (Space.ofProperties properties)).toList =
      (combinations (listedOf (properties.map (·.2)))).map fun cs =>
        .value (.obj (start ++ membersOf (Members.keys properties) cs)) := by
  induction properties generalizing start with
  | nil =>
    rw [Space.ofProperties, Space.objects]
    simp [listedOf, combinations, membersOf, Members.keys]
  | cons m rest ih =>
    obtain ⟨name, a⟩ := m
    obtain ⟨hnew, hmissing, hpresent⟩ := Members.nodup_keys_append_cons hkeys
    have hlisted : listedOf (((name, a) :: rest).map (·.2)) =
        (choices a).toList :: listedOf (rest.map (·.2)) := rfl
    rw [hlisted, combinations, List.map_flatMap, Space.ofProperties, Space.objects,
      Lazy.toList_flatMap]
    refine congrArg (List.flatMap · _) (funext fun c => ?_)
    rw [List.map_map]
    cases c with
    | unsupported => exact ih hmissing
    | value v =>
      change (Space.objects (Members.set start name v) (Space.ofProperties rest)).toList = _
      rw [Members.set_eq_append hnew, ih (hpresent v)]
      refine congrArg (List.map · _) (funext fun cs => ?_)
      rw [List.append_assoc, List.singleton_append]
      rfl

/-- The members have under a name what is chosen for it. -/
theorem get?_membersOf_self {name : String} {names : List String} (h : name ∉ names) (c : Choice)
    (cs : List Choice) :
    Members.get? (membersOf (name :: names) (c :: cs)) name = c.value? := by
  cases c with
  | value v => exact if_pos rfl
  | unsupported =>
    have hnone : Members.has (membersOf names cs) name = false :=
      Members.has_eq_false_iff.mpr fun hmem => h ((keys_membersOf_sublist names cs).subset hmem)
    exact Option.not_isSome_iff_eq_none.mp (Bool.eq_false_iff.mp hnone)

/-- What is chosen for a name does not show under another one. -/
theorem get?_membersOf_ne {name key : String} (h : name ≠ key) (names : List String) (c : Choice)
    (cs : List Choice) :
    Members.get? (membersOf (name :: names) (c :: cs)) key =
      Members.get? (membersOf names cs) key := by
  cases c with
  | value v => exact if_neg h
  | unsupported => rfl

/-- Choices for distinct names are told by what the members that they make have under each name. -/
theorem forall₂_of_membersOf {Same : Json → Json → Prop} {names : List String}
    (hnames : names.Nodup) {cs ds : List Choice} (hcs : cs.length = names.length)
    (hds : ds.length = names.length)
    (h : ∀ name ∈ names, Option.Rel Same (Members.get? (membersOf names cs) name)
      (Members.get? (membersOf names ds) name)) :
    List.Forall₂ (fun c d => Option.Rel Same c.value? d.value?) cs ds := by
  induction names generalizing cs ds with
  | nil =>
    obtain rfl := List.length_eq_zero_iff.mp hcs
    obtain rfl := List.length_eq_zero_iff.mp hds
    exact .nil
  | cons name names ih =>
    obtain ⟨c, cs, rfl⟩ := List.exists_cons_of_length_eq_add_one hcs
    obtain ⟨d, ds, rfl⟩ := List.exists_cons_of_length_eq_add_one hds
    obtain ⟨hname, hnames⟩ := List.nodup_cons.mp hnames
    rw [List.forall_mem_cons, get?_membersOf_self hname, get?_membersOf_self hname] at h
    refine .cons h.1 (ih hnames (Nat.succ.inj hcs) (Nat.succ.inj hds) fun key hkey => ?_)
    have hne : name ≠ key := fun heq => hname (heq ▸ hkey)
    have hrel := h.2 key hkey
    rwa [get?_membersOf_ne hne, get?_membersOf_ne hne] at hrel

/-! ## Schemas of lists and objects -/

/-- Choices that are values make a list of them. -/
def MakesList (cs : List Choice) (v : Json) : Prop :=
  ∃ ws : List Json, cs = ws.map .value ∧ v = .arr ws

/-- Choices for declared names make an object.  Its names are those for which there is a value, in
the order in which they are declared. -/
def MakesObject (names : List String) (cs : List Choice) (v : Json) : Prop :=
  ∃ members, v = .obj members ∧ members = membersOf names cs ∧ (Members.keys members).Sublist names

/-- The elements of a list whose positions have no unsupported part. -/
theorem isProduct_of_tuple {members : Members Json} {items : List Json}
    (h : HasShape members (.tuple items))
    (hlistable : ∀ a ∈ items, .unsupported ∉ (choices a).toList) :
    IsProduct (listedOf items) MakesList (choices (.obj members)).toList := by
  have hvalues : ∀ cs ∈ combinations (listedOf items), (valuesOf cs).map .value = cs := by
    intro cs hcs
    refine map_valuesOf fun hmem => ?_
    obtain ⟨f, hf, hlisted⟩ :=
      Json.exists_mem_of_forall₂ (forall₂_of_mem_combinations hcs) hmem
    obtain ⟨a, ha, rfl⟩ := List.mem_map.mp hf
    exact hlistable a ha hlisted
  have helements : (choices (.obj members)).toList =
      (combinations (listedOf items)).map fun cs => .value (.arr (valuesOf cs)) := by
    have hlists := toList_lists hlistable []
    rw [choices, ofSchema_of_hasShape h, Shape.space]
    cases h with
    | tuple _ _ hne =>
      obtain ⟨a, rest, rfl⟩ := List.exists_cons_of_ne_nil hne
      rw [Space.ofSchemas] at hlists ⊢
      rw [Space.choices]
      exact hlists
  rw [helements]
  refine isProduct_map (fun cs hcs => ⟨valuesOf cs, (hvalues cs hcs).symm, rfl⟩) ?_
  intro Same hlooks cs hcs ds hds hsame
  rw [← hvalues cs hcs, ← hvalues ds hds, List.forall₂_map_left_iff, List.forall₂_map_right_iff]
  exact (hlooks.arr hsame).imp fun _ _ hvw => .some hvw

/-- The elements of an object with declared properties. -/
theorem isProduct_of_record {members properties : Members Json}
    (h : HasShape members (.record properties)) (hnames : (Members.keys properties).Nodup) :
    IsProduct (listedOf (properties.map (·.2))) (MakesObject (Members.keys properties))
      (choices (.obj members)).toList := by
  have helements : (choices (.obj members)).toList =
      (combinations (listedOf (properties.map (·.2)))).map fun cs =>
        .value (.obj (membersOf (Members.keys properties) cs)) := by
    have hobjects := @toList_objects properties [] hnames
    rw [choices, ofSchema_of_hasShape h, Shape.space]
    cases h with
    | record _ _ _ hne =>
      obtain ⟨m, rest, rfl⟩ := List.exists_cons_of_ne_nil hne
      rw [Space.ofProperties] at hobjects ⊢
      rw [Space.choices]
      exact hobjects
  have hlength : ∀ cs ∈ combinations (listedOf (properties.map (·.2))),
      cs.length = (Members.keys properties).length := by
    intro cs hcs
    rw [(forall₂_of_mem_combinations hcs).length_eq, listedOf, Members.keys, List.length_map,
      List.length_map, List.length_map]
  rw [helements]
  refine isProduct_map (fun cs _ => ⟨_, rfl, rfl, keys_membersOf_sublist _ cs⟩) ?_
  intro Same hlooks cs hcs ds hds hsame
  exact forall₂_of_membersOf hnames (hlength cs hcs) (hlength ds hds) fun name _ =>
    hlooks.obj hsame name

/-- **The order of listing.**  The elements of a list schema with positions that have no unsupported
part are the product of what is listed for the positions, in the order of the numbers whose digits
they take.  The same is true of every closed object schema and what is listed for its properties,
where an unsupported element leaves its property out; the others stand in the order in which they
are declared. -/
theorem isProduct_choices :
    (∀ (members : Members Json) (items : List Json), HasShape members (.tuple items) →
      (∀ a ∈ items, .unsupported ∉ (choices a).toList) →
        IsProduct (listedOf items) MakesList (choices (.obj members)).toList) ∧
      ∀ members properties : Members Json, HasShape members (.record properties) →
        (Members.keys properties).Nodup →
          IsProduct (listedOf (properties.map (·.2))) (MakesObject (Members.keys properties))
            (choices (.obj members)).toList :=
  ⟨fun _ _ h hlistable => isProduct_of_tuple h hlistable,
    fun _ _ h hnames => isProduct_of_record h hnames⟩

/-- The elements of `pairMembers`: the digits of 3 are 1 and 1, the last elements of both positions;
and the number of elements of `flagsMembers`, which has a property that cannot be listed. -/
theorem isProduct_choices_pairMembers :
    HasShape pairMembers (.tuple [.obj wordMembers, .obj flagsMembers]) ∧
      (choices (.obj pairMembers)).toList.length = 4 ∧
      (choices (.obj pairMembers)).toList[3]? =
        some (.value (.arr [.str "never", .obj [("deep", .bool false)]])) ∧
      Apart Json.EqualUpToOrder (choices (.obj pairMembers)).toList ∧
      HasShape flagsMembers (.record [("deep", .obj [("type", .str "boolean")]),
        ("name", .obj [("type", .str "string")])]) ∧
      (choices (.obj flagsMembers)).toList.length = 2 := by
  have hdeep : (choices (.obj [("type", .str "boolean")])).toList =
      [.value (.bool true), .value (.bool false)] := by
    simp [choices, Space.ofSchema, Space.alternativesOf, Space.choices, Members.has, Members.get?]
  have hname : (choices (.obj [("type", .str "string")])).toList = [.unsupported] := by
    simp [choices, Space.ofSchema, Space.alternativesOf, Space.choices, Members.has, Members.get?]
  have hpair := isProduct_choices.1 pairMembers _ hasShape_pairMembers
    (by simp [toList_choices_wordMembers, toList_choices_flagsMembers])
  have hrecord := isProduct_choices.2 flagsMembers _ hasShape_flagsMembers (by decide)
  have hlisted : listedOf [.obj wordMembers, .obj flagsMembers] =
      [[.value (.str "always"), .value (.str "never")],
        [.value (.obj [("deep", .bool true)]), .value (.obj [("deep", .bool false)])]] := by
    rw [listedOf, List.map_cons, List.map_cons, List.map_nil,
      toList_choices_wordMembers, toList_choices_flagsMembers]
  rw [hlisted] at hpair
  have hwords : ∀ {s t : String}, Json.EqualUpToOrder (.str s) (.str t) → s = t := by
    rintro s _ ⟨⟩
    rfl
  refine ⟨hasShape_pairMembers, hpair.length, ?_, ?_, hasShape_flagsMembers, ?_⟩
  · obtain ⟨cs, v, htakes, ⟨ws, hws, rfl⟩, hlast⟩ := hpair.getElem? 3 (by decide)
    have hcs : cs = [.value (.str "never"), .value (.obj [("deep", .bool false)])] :=
      htakes.unique (.cons rfl (.cons rfl .nil))
    have hitems : ws = [.str "never", .obj [("deep", .bool false)]] :=
      List.map_injective_iff.mpr (fun _ _ => Choice.value.inj) (hws.symm.trans hcs)
    rw [hlast, hitems]
  · refine hpair.apart Json.EqualUpToOrder looksInside_equalUpToOrder ?_
    rw [List.forall_mem_cons, List.forall_mem_singleton]
    constructor
    · refine List.pairwise_pair.mpr fun hsame => ?_
      cases hsame with
      | some hsame => exact absurd (hwords hsame) (by decide)
    · refine List.pairwise_pair.mpr fun hsame => ?_
      cases hsame with
      | some hsame =>
        have hdeepSame : Json.EqualUpToOrder (.bool true) (.bool false) :=
          (Json.equalUpToOrder_obj_iff.mp hsame).2 "deep" _ _ rfl rfl
        cases hdeepSame
  · rw [hrecord.length]
    simp [listedOf, hdeep, hname]

end LintSetup.Options
