import LintSetup.ConfigFile.Format
import LintSetup.Proofs.Json.Order

/-!
# The canonical form of a configuration

The JSON text of a configuration is the indented text of the value with all its keys in order.  So
what the text tells is what the value with its keys in order tells (`Json.indented_eq_iff`), and that
is the value up to the order of its keys (`Json.spelledAlike_sorted_iff`).  The statement about texts
is `FileFormat.jsonText_canonical`.
-/

namespace LintSetup

namespace FileFormat

open Json

/-- **The canonical form of a configuration.**  Two configurations have the same text exactly when
they are equal up to the order of keys, at every depth.  The text of a configuration is that of a
value, and any value with this text has its keys in strictly ascending order of their bytes, at every
depth, and is equal to the configuration up to the order of keys. -/
theorem jsonText_canonical {a b : Config} (ha : a.toJson.Proper) (hb : b.toJson.Proper) :
    (jsonText a = jsonText b ↔ EqualUpToOrder a.toJson b.toJson) ∧
      (∃ v : Json, v.indented = jsonText a) ∧
      ∀ v : Json, v.indented = jsonText a → v.Ascending ∧ EqualUpToOrder v a.toJson := by
  refine ⟨?_, ⟨a.toJson.sorted, rfl⟩, fun v hv => ?_⟩
  · rw [jsonText, jsonText, indented_eq_iff, spelledAlike_sorted_iff ha hb]
  · have halike : SpelledAlike v a.toJson.sorted := indented_eq_iff.mp hv
    have hascending : v.Ascending := halike.ascending ha.ascending_sorted
    refine ⟨hascending, (spelledAlike_sorted_iff hascending.proper ha).mp ?_⟩
    rwa [hascending.sorted_eq_self]

/-- An object inside a list. -/
def sampleItem : Json := .obj [("b", .null), ("a", .bool true)]

/-- The same object with its keys in order. -/
def sampleItemInOrder : Json := .obj [("a", .bool true), ("b", .null)]

theorem equalUpToOrder_sampleItem : EqualUpToOrder sampleItem sampleItemInOrder := by
  refine .obj (List.Perm.swap ..) fun key v w hv hw => ?_
  simp only [Members.get?_cons, Members.get?_nil] at hv hw
  split_ifs at hv hw with hb ha
  · exact absurd (hb.trans ha.symm) (by decide)
  · cases hv
    cases hw
    exact .null
  · cases hv
    cases hw
    exact .bool true

/-- A key out of order inside a list does not show in the text. -/
theorem jsonText_canonical_sampleItem :
    (Config.mk [("semi", .arr [sampleItem])]).toJson.Proper ∧
      (Config.mk [("semi", .arr [sampleItemInOrder])]).toJson.Proper ∧
      jsonText ⟨[("semi", .arr [sampleItem])]⟩ =
        jsonText ⟨[("semi", .arr [sampleItemInOrder])]⟩ := by
  have ha : (Config.mk [("semi", .arr [sampleItem])]).toJson.Proper := by
    simp [sampleItem, Config.toJson, Proper, ProperMembers, ProperItems, Members.keys]
  have hb : (Config.mk [("semi", .arr [sampleItemInOrder])]).toJson.Proper := by
    simp [sampleItemInOrder, Config.toJson, Proper, ProperMembers, ProperItems, Members.keys]
  refine ⟨ha, hb, (jsonText_canonical ha hb).1.mpr (.obj (List.Perm.refl _) ?_)⟩
  intro key v w hv hw
  simp only [Members.get?_cons, Members.get?_nil] at hv hw
  split_ifs at hv hw
  cases hv
  cases hw
  exact .arr (.cons equalUpToOrder_sampleItem .nil)

end FileFormat

end LintSetup
