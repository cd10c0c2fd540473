import LintSetup.Proofs.Options.Fitting

/-!
# Lists in which listing gives up

A schema of a list has a schema for each position.  Where a position has a part that cannot be
listed, listing gives up: what that position would have gone on with is not looked at, and one
unsupported element stands for it.  Giving up ends the position.  It does not end the positions
before it, which go on with their next value and come to the same place again.

So an unsupported element can be followed by others.  Two things are said about the elements of a
list schema, for any number of positions and whatever their schemas are.

* How many of them are unsupported: `interruptions` counts, from the last position to the first, one
  for each choice of values before a position that gives up.
* When an unsupported element is the last one: exactly when each position that gives up, and that
  listing comes to at all, has positions before it with one element each (`GivesUpOnce`).

Both rest on what the first position contributes (`toList_lists_cons`): the lists that go on from
each of the values before it gives up, and then the unsupported element.
-/

namespace LintSetup.Options

/-! ## One position -/

/-- The values that are listed before listing gives up. -/
def valuesBefore : List Choice → List Json
  | .value v :: rest => v :: valuesBefore rest
  | .unsupported :: _ => []
  | [] => []

/-- Whether listing gives up somewhere. -/
def givesUp (elements : List Choice) : Bool := elements.any Choice.isUnsupported

/-- The unsupported element that stands where listing gives up. -/
def marker (elements : List Choice) : List Choice :=
  if givesUp elements then [.unsupported] else []

@[simp] theorem marker_value (v : Json) (rest : List Choice) :
    marker (.value v :: rest) = marker rest := rfl

theorem givesUp_iff {elements : List Choice} :
    givesUp elements = true ↔ .unsupported ∈ elements := by
  rw [givesUp, List.any_eq_true]
  constructor
  · rintro ⟨c, hc, hunsupported⟩
    cases c with
    | value v => exact absurd hunsupported Bool.false_ne_true
    | unsupported => exact hc
  · exact fun h => ⟨.unsupported, h, rfl⟩

/-- What comes through up to the first unsupported element. -/
theorem listThroughFirst_isUnsupported (elements : List Choice) :
    Lazy.listThroughFirst Choice.isUnsupported elements =
      (valuesBefore elements).map .value ++ marker elements := by
  induction elements with
  | nil => rfl
  | cons c rest ih =>
    cases c with
    | unsupported => rfl
    | value v =>
      rw [Lazy.listThroughFirst, marker_value, valuesBefore, List.map_cons, List.cons_append, ← ih]
      rfl

/-- Where listing does not give up, all elements are values. -/
theorem map_valuesBefore {elements : List Choice} (h : givesUp elements = false) :
    (valuesBefore elements).map .value = elements := by
  have hall : ∀ c ∈ elements, c.isUnsupported = false := by
    intro c hc
    exact Bool.eq_false_iff.mpr (List.any_eq_false.mp h c hc)
  have hthrough := listThroughFirst_isUnsupported elements
  rw [Lazy.listThroughFirst_eq_self hall, marker, h, if_neg Bool.false_ne_true,
    List.append_nil] at hthrough
  exact hthrough.symm

/-- Beside a value before it gives up, a position has no element exactly when this is the only value
and listing does not give up. -/
theorem length_eq_one_iff {elements : List Choice} (h : valuesBefore elements ≠ []) :
    elements.length = 1 ↔ (valuesBefore elements).length = 1 ∧ givesUp elements = false := by
  cases hgives : givesUp elements with
  | false =>
    have hlength := congrArg List.length (map_valuesBefore hgives)
    rw [List.length_map] at hlength
    simp [hlength]
  | true =>
    -- the first element is a value, and an unsupported one comes later
    refine iff_of_false (fun hlength => ?_) fun h => absurd h.2.symm Bool.false_ne_true
    obtain ⟨c, rfl⟩ := List.length_eq_one_iff.mp hlength
    obtain rfl := List.mem_singleton.mp (givesUp_iff.mp hgives)
    exact h rfl

/-! ## The positions of a list -/

section Positions

variable (start : List Json) (a : Json) (rest items : List Json)

/-- **What a position contributes.**  Each value before listing gives up there goes on through the
later positions; then comes the unsupported element. -/
theorem toList_lists_cons :
    (Space.lists start (Space.ofSchemas (a :: rest))).toList =
      ((valuesBefore (choices a).toList).flatMap fun v =>
        (Space.lists (start ++ [v]) (Space.ofSchemas rest)).toList) ++
        marker (choices a).toList := by
  rw [Space.ofSchemas, Space.lists, Lazy.toList_flatMap, Lazy.toList_throughFirst, ← choices,
    listThroughFirst_isUnsupported, List.flatMap_append, List.flatMap_map, marker]
  cases givesUp (choices a).toList <;> rfl

/-- How often listing gives up in a list with given positions. -/
def interruptions : List Json → Nat
  | [] => 0
  | a :: rest =>
    (valuesBefore (choices a).toList).length * interruptions rest +
      (marker (choices a).toList).length

/-- The unsupported elements are as many as the interruptions. -/
theorem countP_lists :
    (Space.lists start (Space.ofSchemas items)).toList.countP Choice.isUnsupported =
      interruptions items := by
  induction items generalizing start with
  | nil => simp [Space.ofSchemas, Space.lists, interruptions, Choice.isUnsupported]
  | cons a rest ih =>
    have hmarker : (marker (choices a).toList).countP Choice.isUnsupported =
        (marker (choices a).toList).length := by
      unfold marker
      split <;> rfl
    have hsame : List.countP Choice.isUnsupported ∘ (fun v =>
        (Space.lists (start ++ [v]) (Space.ofSchemas rest)).toList) =
          fun _ => interruptions rest := funext fun v => ih (start ++ [v])
    rw [toList_lists_cons, List.countP_append, List.countP_flatMap, hsame, List.map_const',
      List.sum_replicate_nat, hmarker, interruptions]

theorem unsupported_mem_lists :
    .unsupported ∈ (Space.lists start (Space.ofSchemas items)).toList ↔ 0 < interruptions items := by
  rw [← countP_lists start items, List.countP_pos_iff, ← givesUp_iff, givesUp, List.any_eq_true]

end Positions

/-! ## Where nothing follows an unsupported element -/

/-- An element that is followed by another one is a value: nothing comes after a place where listing
had to give up, and there is one such place at most. -/
def EndsGivingUp (elements : List Choice) : Prop :=
  elements.Pairwise fun c _ => c.isUnsupported = false

/-- Listing comes to a position of a list: each position before it has a value before it gives
up. -/
def IsReached (items : List Json) (i : Nat) : Prop :=
  ∀ j < i, ∀ a, items[j]? = some a → valuesBefore (choices a).toList ≠ []

/-- Where listing gives up at a position that it comes to, the positions before it have one element
each. -/
def GivesUpOnce (items : List Json) : Prop :=
  ∀ i a, items[i]? = some a → .unsupported ∈ (choices a).toList → IsReached items i →
    ∀ j < i, ∀ b, items[j]? = some b → (choices b).toList.length = 1

section Recursion

variable {a : Json} {rest items : List Json}

theorem isReached_zero (items : List Json) : IsReached items 0 :=
  fun _ hj => absurd hj (Nat.not_lt_zero _)

theorem isReached_succ {i : Nat} :
    IsReached (a :: rest) (i + 1) ↔ valuesBefore (choices a).toList ≠ [] ∧ IsReached rest i := by
  constructor
  · intro h
    refine ⟨h 0 (Nat.succ_pos i) a rfl, fun j hj b hb => ?_⟩
    exact h (j + 1) (Nat.succ_lt_succ hj) b hb
  · rintro ⟨hfirst, hrest⟩ j hj b hb
    cases j with
    | zero =>
      obtain rfl := Option.some.inj hb
      exact hfirst
    | succ j => exact hrest j (Nat.lt_of_succ_lt_succ hj) b hb

theorem length_marker_pos_iff {elements : List Choice} :
    0 < (marker elements).length ↔ .unsupported ∈ elements := by
  rw [← givesUp_iff, marker]
  cases givesUp elements <;> simp

/-- There are interruptions exactly when listing comes to a position where it gives up. -/
theorem interruptions_pos_iff :
    0 < interruptions items ↔
      ∃ i a, items[i]? = some a ∧ .unsupported ∈ (choices a).toList ∧ IsReached items i := by
  induction items with
  | nil => simp [interruptions]
  | cons a rest ih =>
    have hlater : 0 < (valuesBefore (choices a).toList).length * interruptions rest ↔
        valuesBefore (choices a).toList ≠ [] ∧ 0 < interruptions rest := by
      rw [← List.length_pos_iff, Nat.pos_iff_ne_zero, Nat.mul_ne_zero_iff, Nat.pos_iff_ne_zero,
        Nat.pos_iff_ne_zero]
    rw [interruptions, Nat.add_pos_iff_pos_or_pos, hlater, ih, length_marker_pos_iff]
    constructor
    · rintro (⟨hfirst, i, b, hb, hgives, hreached⟩ | hgives)
      · exact ⟨i + 1, b, hb, hgives, isReached_succ.mpr ⟨hfirst, hreached⟩⟩
      · exact ⟨0, a, rfl, hgives, isReached_zero _⟩
    · rintro ⟨i, b, hb, hgives, hreached⟩
      cases i with
      | zero =>
        obtain rfl := Option.some.inj hb
        exact .inr hgives
      | succ i =>
        obtain ⟨hfirst, hreached⟩ := isReached_succ.mp hreached
        exact .inl ⟨hfirst, i, b, hb, hgives, hreached⟩

/-- Whether listing gives up once is told from the last position to the first. -/
theorem givesUpOnce_cons (hfirst : valuesBefore (choices a).toList ≠ []) :
    GivesUpOnce (a :: rest) ↔
      (0 < interruptions rest → (choices a).toList.length = 1) ∧ GivesUpOnce rest := by
  constructor
  · intro h
    refine ⟨fun hpos => ?_, fun i b hb hgives hreached j hj c hc => ?_⟩
    · obtain ⟨i, b, hb, hgives, hreached⟩ := interruptions_pos_iff.mp hpos
      exact h (i + 1) b hb hgives (isReached_succ.mpr ⟨hfirst, hreached⟩) 0 (Nat.succ_pos i) a rfl
    · exact h (i + 1) b hb hgives (isReached_succ.mpr ⟨hfirst, hreached⟩) (j + 1)
        (Nat.succ_lt_succ hj) c hc
  · rintro ⟨hone, hrest⟩ i b hb hgives hreached j hj c hc
    cases i with
    | zero => exact absurd hj (Nat.not_lt_zero j)
    | succ i =>
      have hreached := (isReached_succ.mp hreached).2
      cases j with
      | zero =>
        obtain rfl := Option.some.inj hc
        exact hone (interruptions_pos_iff.mpr ⟨i, b, hb, hgives, hreached⟩)
      | succ j => exact hrest i b hb hgives hreached j (Nat.lt_of_succ_lt_succ hj) c hc

/-- Behind a position without a value before it gives up, no position is reached. -/
theorem givesUpOnce_of_nil (hfirst : valuesBefore (choices a).toList = []) :
    GivesUpOnce (a :: rest) := by
  intro i b hb hgives hreached j hj
  cases i with
  | zero => exact absurd hj (Nat.not_lt_zero j)
  | succ i => exact absurd hfirst (isReached_succ.mp hreached).1

end Recursion

/-- Without interruptions there is nothing to be said about them. -/
theorem givesUpOnce_of_interruptions {items : List Json} (h : ¬ 0 < interruptions items) :
    GivesUpOnce items := by
  intro i a ha hgives hreached
  exact absurd (interruptions_pos_iff.mpr ⟨i, a, ha, hgives, hreached⟩) h

/-! ### The end of a list of elements -/

theorem endsGivingUp_marker (elements : List Choice) : EndsGivingUp (marker elements) := by
  unfold marker EndsGivingUp
  split
  · exact List.pairwise_singleton _ _
  · exact List.Pairwise.nil

/-- After values, listing may give up. -/
theorem endsGivingUp_append_marker {values : List Choice} (h : .unsupported ∉ values)
    (elements : List Choice) : EndsGivingUp (values ++ marker elements) := by
  have hall : ∀ c ∈ values, c.isUnsupported = false := by
    intro c hc
    cases c with
    | value v => rfl
    | unsupported => exact absurd hc h
  refine List.pairwise_append.mpr ⟨?_, endsGivingUp_marker elements, fun c hc _ _ => hall c hc⟩
  exact List.pairwise_iff_forall_sublist.mpr fun hsub =>
    hall _ (hsub.subset List.mem_cons_self)

/-- Where each of several parts gives up, it ends there exactly when there is one part and nothing
after it. -/
theorem endsGivingUp_flatMap_append {values : List Json} {part : Json → List Choice}
    (hne : values ≠ []) (hpart : ∀ v, .unsupported ∈ part v) (elements : List Choice) :
    EndsGivingUp (values.flatMap part ++ marker elements) ↔
      (values.length = 1 ∧ givesUp elements = false) ∧ ∀ v ∈ values, EndsGivingUp (part v) := by
  unfold EndsGivingUp
  rw [List.pairwise_append, List.pairwise_flatMap]
  constructor
  · rintro ⟨⟨heach, hbetween⟩, -, hbefore⟩
    obtain ⟨v, more, rfl⟩ := List.exists_cons_of_ne_nil hne
    have hmore : more = [] := by
      rw [List.eq_nil_iff_forall_not_mem]
      intro w hw
      have hfollowed := (List.pairwise_cons.mp hbetween).1 w hw _ (hpart v) _ (hpart w)
      exact absurd hfollowed.symm Bool.false_ne_true
    have hnot : givesUp elements = false := by
      rw [Bool.eq_false_iff]
      intro hgives
      have hmarker : .unsupported ∈ marker elements := by
        rw [marker, if_pos hgives]
        exact List.mem_singleton_self _
      have hv : .unsupported ∈ (v :: more).flatMap part :=
        List.mem_flatMap.mpr ⟨v, List.mem_cons_self, hpart v⟩
      exact absurd (hbefore _ hv _ hmarker).symm Bool.false_ne_true
    rw [hmore]
    exact ⟨⟨rfl, hnot⟩, fun w hw => heach w (hmore ▸ hw)⟩
  · rintro ⟨⟨hone, hnot⟩, heach⟩
    obtain ⟨v, rfl⟩ := List.length_eq_one_iff.mp hone
    have hmarker : marker elements = [] := by rw [marker, hnot, if_neg Bool.false_ne_true]
    rw [hmarker]
    exact ⟨⟨heach, List.pairwise_singleton _ _⟩, List.Pairwise.nil, by simp⟩

/-- The elements of a list end where listing gives up exactly when it gives up once. -/
theorem endsGivingUp_lists (start items : List Json) :
    EndsGivingUp (Space.lists start (Space.ofSchemas items)).toList ↔ GivesUpOnce items := by
  induction items generalizing start with
  | nil =>
    refine iff_of_true ?_ (givesUpOnce_of_interruptions (Nat.lt_irrefl 0))
    rw [Space.ofSchemas, Space.lists, Lazy.toList_single]
    exact List.pairwise_singleton _ _
  | cons a rest ih =>
    rw [toList_lists_cons]
    by_cases hfirst : valuesBefore (choices a).toList = []
    · rw [hfirst, List.flatMap_nil, List.nil_append]
      exact iff_of_true (endsGivingUp_marker _) (givesUpOnce_of_nil hfirst)
    by_cases hpos : 0 < interruptions rest
    · have hpart := fun v => (unsupported_mem_lists (start ++ [v]) rest).mpr hpos
      obtain ⟨first, hmem⟩ := List.exists_mem_of_ne_nil _ hfirst
      rw [givesUpOnce_cons hfirst, imp_iff_right hpos, length_eq_one_iff hfirst,
        endsGivingUp_flatMap_append hfirst hpart]
      refine and_congr_right fun _ => ⟨fun h => ?_, fun h v _ => (ih (start ++ [v])).mpr h⟩
      exact (ih (start ++ [first])).mp (h first hmem)
    · have hrest := givesUpOnce_of_interruptions hpos
      refine iff_of_true (endsGivingUp_append_marker ?_ _)
        ((givesUpOnce_cons hfirst).mpr ⟨fun h => absurd h hpos, hrest⟩)
      intro hmem
      obtain ⟨v, -, hv⟩ := List.mem_flatMap.mp hmem
      exact hpos ((unsupported_mem_lists (start ++ [v]) rest).mp hv)

/-! ## Schemas of lists -/

/-- **Where listing gives up in a list.**  Of the elements of a schema that is read as a list of given
positions, as many are unsupported as there are interruptions.  None of them is followed by another
element exactly when, wherever listing gives up at a position that it comes to, the positions before
that one have one element each. -/
theorem endsGivingUp_iff_of_typedAs_array {members : Members Json} {items : List Json}
    (h : TypedAs members "array") (hitems : Members.get? members "items" = some (.arr items)) :
    let elements := (choices (.obj members)).toList
    elements.countP Choice.isUnsupported = interruptions items ∧
      (EndsGivingUp elements ↔ GivesUpOnce items) := by
  intro elements
  have helements : elements = (Space.tuple (Space.ofSchemas items)).choices.toList := by
    show (choices (.obj members)).toList = _
    rw [choices, h.ofSchema_array, hitems]
  rw [helements]
  cases items with
  | nil =>
    rw [Space.ofSchemas, Space.choices]
    exact ⟨rfl, iff_of_true .nil (givesUpOnce_of_interruptions (Nat.lt_irrefl 0))⟩
  | cons a rest =>
    have hchoices : (Space.tuple (Space.ofSchemas (a :: rest))).choices =
        Space.lists [] (Space.ofSchemas (a :: rest)) := by
      rw [Space.ofSchemas, Space.choices]
    rw [hchoices]
    exact ⟨countP_lists [] (a :: rest), endsGivingUp_lists [] (a :: rest)⟩

/-- A word, and then a truth value or a number. -/
def wordAndAny : Members Json :=
  [("type", .str "array"),
    ("items", .arr [.obj [("enum", .arr [.str "always"])],
      .obj [("anyOf", .arr [.obj [("type", .str "boolean")], .obj [("type", .str "number")]])]])]

theorem endsGivingUp_iff_of_typedAs_array_wordAndAny :
    TypedAs wordAndAny "array" ∧
      (choices (.obj wordAndAny)).toList.countP Choice.isUnsupported = 1 ∧
      EndsGivingUp (choices (.obj wordAndAny)).toList := by
  have htyped : TypedAs wordAndAny "array" := ⟨rfl, rfl, rfl, rfl⟩
  obtain ⟨hcount, hends⟩ := endsGivingUp_iff_of_typedAs_array htyped rfl
  have honce : GivesUpOnce [.obj [("enum", .arr [.str "always"])],
      .obj [("anyOf", .arr [.obj [("type", .str "boolean")],
        .obj [("type", .str "number")]])]] := by
    intro i a ha _ _ j hj b hb
    have hi : i < 2 := (List.getElem?_eq_some_iff.mp ha).1
    obtain rfl : j = 0 := by omega
    obtain rfl := Option.some.inj hb
    cbv
  refine ⟨htyped, hcount.trans ?_, hends.mpr honce⟩
  cbv

/-- A truth value and a number. -/
def flagAndNumber : Members Json :=
  [("type", .str "array"),
    ("items", .arr [.obj [("type", .str "boolean")], .obj [("type", .str "number")]])]

/-- The number cannot be listed, and listing gives up at it once for each truth value. -/
theorem not_endsGivingUp_flagAndNumber :
    TypedAs flagAndNumber "array" ∧
      (choices (.obj flagAndNumber)).toList = [.unsupported, .unsupported] ∧
      ¬ EndsGivingUp (choices (.obj flagAndNumber)).toList := by
  have hlisted : (choices (.obj flagAndNumber)).toList = [.unsupported, .unsupported] := by
    cbv
  refine ⟨⟨rfl, rfl, rfl, rfl⟩, hlisted, fun h => ?_⟩
  rw [hlisted] at h
  have hvalue : Choice.unsupported.isUnsupported = false :=
    List.rel_of_pairwise_cons h List.mem_cons_self
  exact Bool.noConfusion hvalue

end LintSetup.Options
