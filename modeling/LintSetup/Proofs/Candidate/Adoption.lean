import LintSetup.Candidate.Reduction
import LintSetup.Proofs.Candidate.Eviction
import LintSetup.Proofs.Members
import Mathlib.Data.List.Induction

/-!
# What a pool reduces to

The `rules` section of a pool is filled by two loops: one over the live candidates, one over the
rules of the normalized configuration.  Both ask the section itself whether a rule has a setting.
Here it is said which members come out without mentioning the section while it is filled.

* `firsts` --- the live candidates before which no candidate of the same rule is live.  The first
  loop adopts these, in their order (`foldl_adopt`).
* `StaysOff` --- a rule has no live candidate, is turned off by its setting, and is deprecated
  nowhere in the catalog.  The second loop turns these off, in their order (`foldl_keepOff`).

The main statement, `rules_ofPool`, puts the two parts after one another and counts them.
-/

namespace LintSetup

namespace Config

/-- A setting that turns its rule off: the word, nought, or a list that starts with one of them. -/
inductive TurnsOff : Json → Prop
  | word : TurnsOff (.str "off")
  | nought : TurnsOff (.num (.whole 0))
  | wordFirst (rest : List Json) : TurnsOff (.arr (.str "off" :: rest))
  | noughtFirst (rest : List Json) : TurnsOff (.arr (.num (.whole 0) :: rest))

theorem isOff_iff {setting : Json} : isOff setting = true ↔ TurnsOff setting := by
  constructor
  · intro h
    unfold isOff at h
    split at h
    · next first rest =>
      unfold isOffSeverity at h
      split at h
      · obtain rfl := eq_of_beq h
        exact .wordFirst rest
      · obtain rfl := eq_of_beq h
        exact .noughtFirst rest
      · exact absurd h Bool.false_ne_true
    · exact absurd h Bool.false_ne_true
    · unfold isOffSeverity at h
      split at h
      · obtain rfl := eq_of_beq h
        exact .word
      · obtain rfl := eq_of_beq h
        exact .nought
      · exact absurd h Bool.false_ne_true
  · intro h
    cases h <;> rfl

instance (setting : Json) : Decidable (TurnsOff setting) := decidable_of_iff _ isOff_iff

end Config

namespace Reduction

/-! ## The first candidates of the rules -/

/-- Those of several numbered candidates before which none has the same rule. -/
def firstsOf (ms : List (Nat × Candidate)) : List (Nat × Candidate) :=
  ms.filter fun m => ∀ n ∈ ms, n.1 < m.1 → n.2.ruleId ≠ m.2.ruleId

/-- The live candidates before which no candidate of the same rule is live. -/
def firsts (pool : Pool) : List (Nat × Candidate) := firstsOf pool.live

/-- The member that adopts a candidate. -/
def member (m : Nat × Candidate) : String × Json := (m.2.ruleId, m.2.setting)

/-- A candidate with a higher number is one of the firsts unless its rule occurs already, and does
not change which of the others are. -/
theorem firstsOf_concat {ms : List (Nat × Candidate)} {m : Nat × Candidate}
    (hlast : ∀ n ∈ ms, n.1 < m.1) :
    firstsOf (ms ++ [m]) =
      if ∃ n ∈ ms, n.2.ruleId = m.2.ruleId then firstsOf ms else firstsOf ms ++ [m] := by
  have hbefore : ms.filter (fun k => ∀ n ∈ ms ++ [m], n.1 < k.1 → n.2.ruleId ≠ k.2.ruleId) =
      firstsOf ms := by
    refine List.filter_congr fun k hk => ?_
    have hnot : ¬ m.1 < k.1 := Nat.not_lt.mpr (Nat.le_of_lt (hlast k hk))
    rw [decide_eq_decide, List.forall_mem_append, List.forall_mem_singleton]
    exact and_iff_left fun hlt => absurd hlt hnot
  have hself : (∀ n ∈ ms ++ [m], n.1 < m.1 → n.2.ruleId ≠ m.2.ruleId) ↔
      ¬ ∃ n ∈ ms, n.2.ruleId = m.2.ruleId := by
    rw [List.forall_mem_append, List.forall_mem_singleton]
    constructor
    · rintro ⟨hold, -⟩ ⟨n, hn, hid⟩
      exact hold n hn (hlast n hn) hid
    · intro hnew
      exact ⟨fun n hn _ hid => hnew ⟨n, hn, hid⟩, fun hlt => absurd hlt (Nat.lt_irrefl _)⟩
  rw [firstsOf, List.filter_append, hbefore, List.filter_singleton]
  split
  · next hold =>
    rw [decide_eq_false (fun hall => hself.mp hall hold), cond_false, List.append_nil]
  · next hnew => rw [decide_eq_true (hself.mpr hnew), cond_true]

/-- Every rule that occurs has a first candidate. -/
theorem exists_mem_firstsOf_iff {ms : List (Nat × Candidate)} (h : ms.Pairwise fun m n => m.1 < n.1)
    (id : String) : (∃ m ∈ firstsOf ms, m.2.ruleId = id) ↔ ∃ m ∈ ms, m.2.ruleId = id := by
  induction ms using List.reverseRecOn with
  | nil => simp [firstsOf]
  | append_singleton ms m ih =>
    obtain ⟨hms, -, hlast⟩ := List.pairwise_append.mp h
    have hbefore : ∀ n ∈ ms, n.1 < m.1 := fun n hn => hlast n hn m List.mem_cons_self
    have hsplit : (∃ n ∈ ms ++ [m], n.2.ruleId = id) ↔
        (∃ n ∈ ms, n.2.ruleId = id) ∨ m.2.ruleId = id := by
      simp [or_and_right, exists_or]
    rw [firstsOf_concat hbefore, hsplit]
    split
    · next hold =>
      rw [ih hms]
      refine ⟨.inl, ?_⟩
      rintro (hid | rfl)
      · exact hid
      · exact hold
    · simp only [List.mem_append, List.mem_singleton, or_and_right, exists_or, exists_eq_left,
        ih hms]

/-! ## The first loop -/

/-- **Adoption.**  The loop over candidates adopts the first one of every rule, in order. -/
theorem foldl_adopt {ms : List (Nat × Candidate)} (h : ms.Pairwise fun m n => m.1 < n.1) :
    (ms.map (·.2)).foldl adopt ⟨[], 0, 0⟩ =
      ⟨(firstsOf ms).map member, (firstsOf ms).length, 0⟩ := by
  induction ms using List.reverseRecOn with
  | nil => rfl
  | append_singleton ms m ih =>
    obtain ⟨hms, -, hlast⟩ := List.pairwise_append.mp h
    have hbefore : ∀ n ∈ ms, n.1 < m.1 := fun n hn => hlast n hn m List.mem_cons_self
    have hhas : Members.has ((firstsOf ms).map member) m.2.ruleId = true ↔
        ∃ n ∈ ms, n.2.ruleId = m.2.ruleId := by
      rw [← exists_mem_firstsOf_iff hms, Members.has_iff_mem_keys, Members.keys, List.map_map,
        List.mem_map]
      rfl
    rw [List.map_append, List.foldl_append, ih hms, List.map_singleton, List.foldl_cons,
      List.foldl_nil, adopt, firstsOf_concat hbefore]
    simp only [hhas]
    split
    · rfl
    · next hnew =>
      have hkey : m.2.ruleId ∉ Members.keys ((firstsOf ms).map member) := fun hkey =>
        hnew (hhas.mp ((Members.has_iff_mem_keys _ _).mpr hkey))
      rw [Members.set_eq_append hkey, List.map_append, List.length_append]
      rfl

/-! ## The second loop -/

/-- Whether the second loop turns a rule off, given the settings that there are. -/
def isAdded (rules : Members Json) (outdated : List String) (m : String × Json) : Bool :=
  !Members.has rules m.1 && Config.isOff m.2 && !outdated.contains m.1

/-- Another rule with a setting does not change whether a rule is turned off. -/
theorem isAdded_append {rules : Members Json} {outdated : List String} {m n : String × Json}
    {setting : Json} (h : n.1 ≠ m.1) :
    isAdded (rules ++ [(m.1, setting)]) outdated n = isAdded rules outdated n := by
  have hsame : Members.has (rules ++ [(m.1, setting)]) n.1 = Members.has rules n.1 := by
    rw [Bool.eq_iff_iff, Members.has_iff_mem_keys, Members.has_iff_mem_keys, Members.keys_append,
      List.mem_append]
    exact or_iff_left fun hmem => h (List.mem_singleton.mp hmem)
  rw [isAdded, hsame, isAdded]

/-- **Keeping rules off.**  The loop over the rules of a configuration, each of which is there once,
turns off at the end those that it has to, and counts them. -/
theorem foldl_keepOff {rules : Members Json} (hkeys : (Members.keys rules).Nodup)
    (outdated : List String) (r : Reduction) :
    rules.foldl (keepOff outdated) r =
      ⟨r.rules ++ (rules.filter (isAdded r.rules outdated)).map fun m => (m.1, .str "off"),
        r.enabled, r.disabled + (rules.filter (isAdded r.rules outdated)).length⟩ := by
  induction rules generalizing r with
  | nil => simp
  | cons m rest ih =>
    obtain ⟨hm, hrest⟩ := List.nodup_cons.mp hkeys
    rw [List.foldl_cons, List.filter_cons, keepOff]
    change (rest.foldl (keepOff outdated) (if isAdded r.rules outdated m = true then _ else _)) = _
    by_cases hadded : isAdded r.rules outdated m = true
    · have hnew : m.1 ∉ Members.keys r.rules := by
        rw [isAdded, Bool.and_eq_true, Bool.and_eq_true, Bool.not_eq_true'] at hadded
        exact Members.has_eq_false_iff.mp hadded.1.1
      -- the rule that was added is none of those to come
      have hfilter : rest.filter (isAdded (r.rules ++ [(m.1, .str "off")]) outdated) =
          rest.filter (isAdded r.rules outdated) := by
        refine List.filter_congr fun n hn => isAdded_append ?_
        intro heq
        exact hm (List.mem_map.mpr ⟨n, hn, heq⟩)
      rw [if_pos hadded, if_pos hadded, Members.set_eq_append hnew, ih hrest, hfilter,
        List.map_cons, List.length_cons, List.append_assoc, List.singleton_append]
      simp only [Nat.add_assoc, Nat.add_comm 1]
    · rw [if_neg hadded, if_neg hadded]
      exact ih hrest r

/-! ## The two parts -/

/-- A rule with its setting in a configuration stays off: it has no live candidate, its setting turns
it off, and no rule of the catalog with its name is deprecated. -/
def StaysOff (pool : Pool) (catalog : List Rule) (m : String × Json) : Prop :=
  (∀ n ∈ pool.live, n.2.ruleId ≠ m.1) ∧ Config.TurnsOff m.2 ∧
    ∀ rule ∈ catalog, rule.id = m.1 → rule.deprecated = false

instance (pool : Pool) (catalog : List Rule) (m : String × Json) :
    Decidable (StaysOff pool catalog m) :=
  inferInstanceAs (Decidable (_ ∧ _ ∧ _))

theorem contains_deprecated_eq_false_iff {catalog : List Rule} {id : String} :
    (deprecated catalog).contains id = false ↔
      ∀ rule ∈ catalog, rule.id = id → rule.deprecated = false := by
  rw [← Bool.not_eq_true, List.contains_iff_mem, deprecated, List.mem_map]
  constructor
  · intro h rule hrule hid
    rw [← Bool.not_eq_true]
    exact fun hdeprecated => h ⟨rule, List.mem_filter.mpr ⟨hrule, hdeprecated⟩, hid⟩
  · rintro h ⟨rule, hrule, hid⟩
    obtain ⟨hmem, hdeprecated⟩ := List.mem_filter.mp hrule
    rw [h rule hmem hid] at hdeprecated
    exact Bool.false_ne_true hdeprecated

/-- The rules that are adopted are those with a live candidate. -/
theorem mem_keys_firsts_iff (pool : Pool) (id : String) :
    id ∈ Members.keys ((firsts pool).map member) ↔ ∃ m ∈ pool.live, m.2.ruleId = id := by
  rw [← exists_mem_firstsOf_iff pool.pairwise_live, Members.keys, List.map_map, List.mem_map]
  rfl

/-- No rule is adopted twice: of two candidates of a rule, the later one is not the first. -/
theorem nodup_keys_firsts (pool : Pool) : (Members.keys ((firsts pool).map member)).Nodup := by
  rw [Members.keys, List.map_map, List.Nodup, List.pairwise_map, firsts, firstsOf]
  refine List.pairwise_filter.mpr (pool.pairwise_live.imp_of_mem ?_)
  intro m n hm _ hlt _ hfirst heq
  exact of_decide_eq_true hfirst m hm hlt heq

/-- What the second loop turns off after the first are the rules that stay off. -/
theorem isAdded_firsts_iff (pool : Pool) (catalog : List Rule) (m : String × Json) :
    isAdded ((firsts pool).map member) (deprecated catalog) m = true ↔ StaysOff pool catalog m := by
  rw [isAdded, Bool.and_eq_true, Bool.and_eq_true, Bool.not_eq_true', Members.has_eq_false_iff,
    mem_keys_firsts_iff, Config.isOff_iff, Bool.not_eq_true', contains_deprecated_eq_false_iff,
    StaysOff, and_assoc]
  simp only [not_exists, not_and, ne_eq]

/-- **What a pool reduces to.**  For any pool, whatever was evicted from it, any catalog and any
normalized configuration that names each of its rules once, the members are:

* the first live candidate of every rule that has one, in the order of the pool;
* after them, in the order of the configuration, those of its rules that stay off.

No rule occurs twice, and the two counts are the lengths of the two parts. -/
theorem rules_ofPool (pool : Pool) (normalized : Config) (catalog : List Rule)
    (hkeys : (Members.keys (normalized.rules?.getD [])).Nodup) :
    let r := ofPool pool normalized catalog
    let adopted := firsts pool
    let off := (normalized.rules?.getD []).filter fun m => StaysOff pool catalog m
    r.rules = adopted.map member ++ off.map (fun m => (m.1, .str "off")) ∧
      (∀ id, id ∈ Members.keys (adopted.map member) ↔ ∃ m ∈ pool.live, m.2.ruleId = id) ∧
      (Members.keys r.rules).Nodup ∧
      r.enabled = adopted.length ∧ r.disabled = off.length ∧
      r.enabled + r.disabled = r.rules.length := by
  intro r adopted off
  have hoff : (normalized.rules?.getD []).filter
      (isAdded ((firsts pool).map member) (deprecated catalog)) = off := by
    refine List.filter_congr fun m _ => ?_
    rw [Bool.eq_iff_iff, isAdded_firsts_iff, decide_eq_true_iff]
  have hr : r = ⟨adopted.map member ++ off.map (fun m => (m.1, .str "off")), adopted.length,
      off.length⟩ := by
    show ofPool pool normalized catalog = _
    rw [ofPool, foldl_adopt pool.pairwise_live, foldl_keepOff hkeys]
    rw [firsts] at hoff
    simp only [hoff, Nat.zero_add]
    rfl
  have hkeysOff : Members.keys (off.map fun m => (m.1, Json.str "off")) = Members.keys off := by
    rw [Members.keys, List.map_map]
    rfl
  have hdisjoint : ∀ id ∈ Members.keys (adopted.map member), ∀ id' ∈ Members.keys off,
      id ≠ id' := by
    rintro id hid id' hid' rfl
    obtain ⟨m, hm, rfl⟩ := List.mem_map.mp hid'
    obtain ⟨n, hn, heq⟩ := (mem_keys_firsts_iff pool m.1).mp hid
    have hstays : StaysOff pool catalog m := of_decide_eq_true (List.mem_filter.mp hm).2
    exact hstays.1 n hn heq
  rw [hr]
  refine ⟨rfl, mem_keys_firsts_iff pool, ?_, rfl, rfl, ?_⟩
  · rw [Members.keys_append, hkeysOff]
    exact List.nodup_append.mpr ⟨nodup_keys_firsts pool,
      Members.nodup_keys_filter hkeys _, hdisjoint⟩
  · simp

/-- Three candidates of two rules, the first of which was evicted. -/
def samplePool : Pool :=
  (Pool.ofList [⟨"semi", .str "error"⟩, ⟨"quotes", .str "error"⟩,
    ⟨"semi", .arr [.str "error", .str "always"]⟩]).evict 0

/-- A configuration that turns off a rule with a live candidate, an outdated one and two more. -/
def sampleConfig : Config :=
  Config.empty.withRules [("quotes", .str "off"), ("no-eval", .arr [.num (.whole 0)]),
    ("indent", .str "error"), ("no-catch-shadow", .str "off"), ("curly", .str "off")]

/-- A catalog in which one rule is deprecated. -/
def sampleCatalog : List Rule :=
  [{ id := "no-catch-shadow", deprecated := true }, { id := "curly" }]

/-- The two rules that survived come first, and the two that stay off after them. -/
theorem rules_ofPool_samplePool :
    (Members.keys (sampleConfig.rules?.getD [])).Nodup ∧
      (ofPool samplePool sampleConfig sampleCatalog).rules =
        [("quotes", .str "error"), ("semi", .arr [.str "error", .str "always"]),
          ("no-eval", .str "off"), ("curly", .str "off")] ∧
      (ofPool samplePool sampleConfig sampleCatalog).enabled = 2 ∧
      (ofPool samplePool sampleConfig sampleCatalog).disabled = 2 := by
  have hkeys : (Members.keys (sampleConfig.rules?.getD [])).Nodup := by decide
  obtain ⟨hrules, -, -, henabled, hdisabled, -⟩ :=
    rules_ofPool samplePool sampleConfig sampleCatalog hkeys
  exact ⟨hkeys, hrules, henabled, hdisabled⟩

end Reduction
end LintSetup
