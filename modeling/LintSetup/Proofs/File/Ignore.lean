import LintSetup.File.Ignore
import LintSetup.Proofs.File.Steps
import LintSetup.Proofs.Glob.Names
import Mathlib.Data.List.DropRight

/-!
# What lines ignore

Every line that is a rule stands for one glob, its base, and ignores what the base matches and
everything below that.  What is ignored depends on nothing but the set of these bases.

* `IsRule`, `Bare`, `IsBase`, `HasBase` --- the bases of lines;
* `ignores_iff` --- what the rules of accepted lines ignore, for any text;
* `ofLines_accepts` --- lines are accepted if their bases are globs;
* `covers_names_iff` --- lines that are plain names ignore the paths with one of them among their
  steps;
* `ignores_ofLines` --- for a path of steps, this is what is at or below a path that a base
  matches.
-/

namespace LintSetup.IgnoreRules

/-! ## The bases of lines -/

/-- A text, trimmed, is a line with a rule: it is not blank, no comment and no negation. -/
structure IsRule (text line : String) : Prop where
  trimmed : line = Text.trim text
  nonempty : line ≠ ""
  noComment : line.toList.head? ≠ some '#'
  noNegation : line.toList.head? ≠ some '!'

/-- A line without its trailing slashes. -/
structure Bare (line body : String) : Prop where
  slashes : ∃ n, line = body ++ String.ofList (List.replicate n '/')
  bare : body.toList.getLast? ≠ some '/'

/-- The base of a line without its trailing slashes: with a leading slash it is the rest, with
another slash the line as it is, and without any slash a name at any depth. -/
inductive IsBase : String → String → Prop
  | anchored (rest : String) : IsBase ("/" ++ rest) rest
  | inner {body : String} (hstart : body.toList.head? ≠ some '/') (hinner : '/' ∈ body.toList) :
    IsBase body body
  | name {body : String} (h : '/' ∉ body.toList) : IsBase body ("**/" ++ body)

/-- One of the lines is a rule with a base. -/
def HasBase (lines : List String) (base : String) : Prop :=
  ∃ text ∈ lines, ∃ line body, IsRule text line ∧ Bare line body ∧ IsBase body base

theorem lineOf_eq_rule_iff {text line : String} : lineOf text = .rule line ↔ IsRule text line := by
  unfold lineOf
  simp only
  constructor
  · intro h
    split at h
    · cases h
    · cases h
    · cases h
    · next hnil hhash hbang =>
      cases h
      refine ⟨rfl, fun hempty => hnil ?_, fun hhead => ?_, fun hhead => ?_⟩
      · rw [hempty]
        rfl
      · obtain ⟨rest, hrest⟩ := List.head?_eq_some_iff.mp hhead
        exact hhash rest hrest
      · obtain ⟨rest, hrest⟩ := List.head?_eq_some_iff.mp hhead
        exact hbang rest hrest
  · rintro ⟨rfl, hnonempty, hcomment, hnegation⟩
    split
    · next h => exact absurd (String.toList_eq_nil_iff.mp h) hnonempty
    · next h => exact absurd (by rw [h]; rfl) hcomment
    · next h => exact absurd (by rw [h]; rfl) hnegation
    · rfl

/-- A line has one form without its trailing slashes. -/
theorem bare_iff {line body : String} :
    Bare line body ↔ body = String.ofList (line.toList.rdropWhile (· = '/')) := by
  constructor
  · rintro ⟨⟨n, rfl⟩, hbare⟩
    have hself : body.toList.rdropWhile (· = '/') = body.toList := by
      refine List.rdropWhile_eq_self_iff.mpr fun hne hlast => hbare ?_
      rw [List.getLast?_eq_some_getLast hne, of_decide_eq_true hlast]
    have hdrop : (body.toList ++ List.replicate n '/').rdropWhile (· = '/') = body.toList := by
      induction n with
      | zero => rw [List.replicate_zero, List.append_nil, hself]
      | succ n ih =>
        rw [List.replicate_succ', ← List.append_assoc, List.rdropWhile_concat_pos _ _ _ (by simp),
          ih]
    rw [String.toList_append, String.toList_ofList, hdrop, String.ofList_toList]
  · rintro rfl
    refine ⟨⟨(line.toList.rtakeWhile (· = '/')).length, ?_⟩, fun hlast => ?_⟩
    · have hslashes : line.toList.rtakeWhile (· = '/') =
          List.replicate (line.toList.rtakeWhile (· = '/')).length '/' :=
        List.eq_replicate_of_mem fun c hc => by simpa using List.mem_rtakeWhile_imp hc
      rw [← hslashes, ← String.ofList_append, List.rdropWhile_append_rtakeWhile,
        String.ofList_toList]
    · rw [String.toList_ofList] at hlast
      have hne : line.toList.rdropWhile (· = '/') ≠ [] := by
        intro hnil
        rw [hnil] at hlast
        cases hlast
      rw [List.getLast?_eq_some_getLast hne] at hlast
      refine List.rdropWhile_last_not _ _ hne ?_
      rw [Option.some.inj hlast]
      rfl

theorem isBase_iff {body base : String} :
    IsBase body base ↔ base =
      match body.toList with
      | '/' :: anchored => String.ofList anchored
      | _ => if body.toList.contains '/' then String.ofList body.toList
        else String.ofList ('*' :: '*' :: '/' :: body.toList) := by
  constructor
  · intro h
    cases h with
    | anchored =>
      rw [String.toList_append]
      exact String.ofList_toList.symm
    | inner hstart hinner =>
      split
      · next h => exact absurd (by rw [h]; rfl) hstart
      · rw [if_pos (List.contains_iff_mem.mpr hinner), String.ofList_toList]
    | name hnone =>
      split
      · next h => exact absurd (by rw [h]; exact List.mem_cons_self) hnone
      · rw [if_neg (mt List.contains_iff_mem.mp hnone), ← String.toList_inj]
        simp
  · rintro rfl
    split
    · next anchored h =>
      have hbody : body = "/" ++ String.ofList anchored := by
        rw [← String.toList_inj, h]
        simp
      rw [hbody]
      exact .anchored _
    · next hstart =>
      have hstart' : body.toList.head? ≠ some '/' := by
        intro hhead
        obtain ⟨rest, hrest⟩ := List.head?_eq_some_iff.mp hhead
        exact hstart rest hrest
      split
      · next hinner =>
        rw [String.ofList_toList]
        exact .inner hstart' (List.contains_iff_mem.mp hinner)
      · next hnone =>
        have htext : String.ofList ('*' :: '*' :: '/' :: body.toList) = "**/" ++ body := by
          rw [← String.toList_inj]
          simp
        rw [htext]
        exact .name (mt List.contains_iff_mem.mpr hnone)

/-- A line has one base. -/
theorem baseOf_eq_iff {line base : String} :
    baseOf line = base ↔ ∃ body, Bare line body ∧ IsBase body base := by
  simp only [bare_iff, exists_eq_left, isBase_iff, String.toList_ofList]
  exact eq_comm

/-- The bases of lines are the bases of those that are read as rules. -/
theorem hasBase_iff {lines : List String} {base : String} :
    HasBase lines base ↔ ∃ text ∈ lines, ∃ line, lineOf text = .rule line ∧ baseOf line = base := by
  simp only [HasBase, lineOf_eq_rule_iff, baseOf_eq_iff, exists_and_left]

theorem hasBase_cons_rule {text line base : String} {rest : List String}
    (h : lineOf text = .rule line) :
    HasBase (text :: rest) base ↔ base = baseOf line ∨ HasBase rest base := by
  simp only [hasBase_iff, List.exists_mem_cons_iff, h, Line.rule.injEq, exists_eq_left']
  rw [eq_comm]

theorem hasBase_cons_other {text base : String} {rest : List String}
    (h : ∀ line, lineOf text ≠ .rule line) : HasBase (text :: rest) base ↔ HasBase rest base := by
  simp only [hasBase_iff, List.exists_mem_cons_iff, h, false_and, exists_false, false_or]

/-! ## The rules of lines -/

/-- A line with a glob for its base has two globs, and they match what the base matches and what is
below that. -/
theorem globsOf?_of_parse? {line : String} {g : Glob} (h : Glob.parse? (baseOf line) = some g) :
    ∃ below, globsOf? line = some [g, below] ∧ Glob.Below g.parts below.parts := by
  obtain ⟨below, hparse, hbelow⟩ := Glob.parse?_below h
  refine ⟨below, ?_, hbelow⟩
  rw [globsOf?, h, hparse]
  rfl

theorem globsOf?_eq_none {line : String} (h : Glob.parse? (baseOf line) = none) :
    globsOf? line = none := by
  rw [globsOf?, h]
  rfl

/-- A base of the lines matches a text or what stands before one of its slashes. -/
def Covers (lines : List String) (path : String) : Prop :=
  ∃ base g, HasBase lines base ∧ Glob.parse? base = some g ∧
    (g.matchesPath path = true ∨
      ∃ above rest, path = above ++ "/" ++ rest ∧ g.matchesPath above = true)

/-- Lines are accepted if all bases are globs. -/
theorem ofLines_accepts {lines : List String}
    (h : ∀ base, HasBase lines base → ∃ g, Glob.parse? base = some g) :
    ∃ warnings rules, ofLines lines = (warnings, .ok rules) := by
  induction lines with
  | nil => exact ⟨[], ⟨[]⟩, rfl⟩
  | cons text rest ih =>
    rw [ofLines]
    cases hline : lineOf text with
    | skipped =>
      exact ih fun base hbase => h base ((hasBase_cons_other (by simp [hline])).mpr hbase)
    | negated line =>
      obtain ⟨warnings, rules, hrest⟩ :=
        ih fun base hbase => h base ((hasBase_cons_other (by simp [hline])).mpr hbase)
      exact ⟨negationWarning line :: warnings, rules, by simp only [hrest]⟩
    | rule line =>
      obtain ⟨warnings, rules, hrest⟩ :=
        ih fun base hbase => h base ((hasBase_cons_rule hline).mpr (.inr hbase))
      obtain ⟨g, hg⟩ := h _ ((hasBase_cons_rule hline).mpr (.inl rfl))
      obtain ⟨below, hglobs, -⟩ := globsOf?_of_parse? hg
      exact ⟨warnings, ⟨[g, below] ++ rules.globs⟩, by simp only [hglobs, hrest]; rfl⟩

theorem covers_cons_rule {text line path : String} {rest : List String} {g : Glob}
    (hline : lineOf text = .rule line) (hg : Glob.parse? (baseOf line) = some g) :
    Covers (text :: rest) path ↔
      (g.matchesPath path = true ∨
        ∃ above below, path = above ++ "/" ++ below ∧ g.matchesPath above = true) ∨
        Covers rest path := by
  constructor
  · rintro ⟨base, g', hbase, hg', hmatch⟩
    rcases (hasBase_cons_rule hline).mp hbase with rfl | hbase
    · obtain rfl := Option.some.inj (hg.symm.trans hg')
      exact .inl hmatch
    · exact .inr ⟨base, g', hbase, hg', hmatch⟩
  · rintro (hmatch | ⟨base, g', hbase, hg', hmatch⟩)
    · exact ⟨_, g, (hasBase_cons_rule hline).mpr (.inl rfl), hg, hmatch⟩
    · exact ⟨base, g', (hasBase_cons_rule hline).mpr (.inr hbase), hg', hmatch⟩

theorem covers_cons_other {text path : String} {rest : List String}
    (h : ∀ line, lineOf text ≠ .rule line) : Covers (text :: rest) path ↔ Covers rest path := by
  simp only [Covers, hasBase_cons_other h]

theorem ignores_append {globs : List Glob} {rules : IgnoreRules} {path : String} :
    ignores ⟨globs ++ rules.globs⟩ path = true ↔
      (∃ g ∈ globs, g.matchesPath path = true) ∨ rules.ignores path = true := by
  rw [ignores, ignores, List.any_append, Bool.or_eq_true, List.any_eq_true]

/-- The bases of accepted lines are globs, and what is ignored is what they cover. -/
theorem ofLines_covers {lines : List String} {warnings : List String} {rules : IgnoreRules}
    (h : ofLines lines = (warnings, .ok rules)) :
    (∀ base, HasBase lines base → ∃ g, Glob.parse? base = some g) ∧
      ∀ path, rules.ignores path = true ↔ Covers lines path := by
  induction lines generalizing warnings rules with
  | nil =>
    cases h
    simp [HasBase, Covers, ignores]
  | cons text rest ih =>
    rw [ofLines] at h
    cases hline : lineOf text with
    | skipped =>
      have hother : ∀ line, lineOf text ≠ .rule line := by simp [hline]
      simp only [hline] at h
      simpa only [hasBase_cons_other hother, covers_cons_other hother] using ih h
    | negated line =>
      have hother : ∀ line, lineOf text ≠ .rule line := by simp [hline]
      simp only [hline] at h
      have hrest : ofLines rest = ((ofLines rest).1, .ok rules) :=
        Prod.ext rfl (Prod.mk.inj h).2
      simpa only [hasBase_cons_other hother, covers_cons_other hother] using ih hrest
    | rule line =>
      simp only [hline] at h
      cases hparse : Glob.parse? (baseOf line) with
      | none =>
        rw [globsOf?_eq_none hparse] at h
        cases h
      | some g =>
        obtain ⟨below, hglobs, hbelow⟩ := globsOf?_of_parse? hparse
        rw [hglobs] at h
        match hrest : ofLines rest with
        | (_, .error f) =>
          rw [hrest] at h
          cases h
        | (warnings', .ok rules') =>
          rw [hrest] at h
          cases h
          obtain ⟨hbases, hcovers⟩ := ih hrest
          refine ⟨fun base hbase => ?_, fun path => ?_⟩
          · rcases (hasBase_cons_rule hline).mp hbase with rfl | hbase
            · exact ⟨g, hparse⟩
            · exact hbases base hbase
          · rw [ignores_append, covers_cons_rule hline hparse, hcovers,
              ← Glob.matchesPath_below hbelow]
            simp

/-! ## Paths of steps -/

theorem Covers.below {lines : List String} {path : String} (h : Covers lines path) (rest : String) :
    Covers lines (path ++ "/" ++ rest) := by
  obtain ⟨base, g, hbase, hg, hmatch⟩ := h
  refine ⟨base, g, hbase, hg, .inr ?_⟩
  obtain hmatch | ⟨above, rest', rfl, hmatch⟩ := hmatch
  · exact ⟨path, rest, rfl, hmatch⟩
  · exact ⟨above, rest' ++ "/" ++ rest, by simp only [String.append_assoc], hmatch⟩

/-- What is below an ignored path is ignored. -/
theorem ignores_append_slash {lines warnings : List String} {rules : IgnoreRules}
    (h : ofLines lines = (warnings, .ok rules)) {path : String} (rest : String)
    (hpath : rules.ignores path = true) : rules.ignores (path ++ "/" ++ rest) = true := by
  obtain ⟨-, hcovers⟩ := ofLines_covers h
  exact (hcovers _).mpr (((hcovers path).mp hpath).below rest)

theorem covers_congr {lines lines' : List String}
    (h : ∀ base, HasBase lines' base ↔ HasBase lines base) {path : String} :
    Covers lines' path ↔ Covers lines path := by
  simp only [Covers, h]

/-- What is put together from steps is covered if a base matches some of them, from the first on. -/
theorem covers_intercalate_iff {lines steps : List String} (hne : steps ≠ [])
    (hsteps : ∀ s ∈ steps, '/' ∉ s.toList) :
    Covers lines ("/".intercalate steps) ↔
      ∃ base g, HasBase lines base ∧ Glob.parse? base = some g ∧
        ∃ k, 0 < k ∧ k ≤ steps.length ∧
          g.matchesPath ("/".intercalate (steps.take k)) = true := by
  have hcut : ∀ g : Glob, (g.matchesPath ("/".intercalate steps) = true ∨
      ∃ above rest, "/".intercalate steps = above ++ "/" ++ rest ∧ g.matchesPath above = true) ↔
      ∃ k, 0 < k ∧ k ≤ steps.length ∧
        g.matchesPath ("/".intercalate (steps.take k)) = true := by
    intro g
    simp only [Path.intercalate_eq_append_slash_iff hne hsteps]
    constructor
    · rintro (hmatch | ⟨_, _, ⟨k, hpos, hlt, rfl, rfl⟩, hmatch⟩)
      · refine ⟨steps.length, List.length_pos_of_ne_nil hne, le_rfl, ?_⟩
        rwa [List.take_length]
      · exact ⟨k, hpos, hlt.le, hmatch⟩
    · rintro ⟨k, hpos, hle, hmatch⟩
      obtain hlt | rfl := hle.lt_or_eq
      · exact .inr ⟨_, _, ⟨k, hpos, hlt, rfl, rfl⟩, hmatch⟩
      · rw [List.take_length] at hmatch
        exact .inl hmatch
  simp only [Covers, hcut]

/-- **What lines ignore.**  Once the lines are accepted, a path of steps is ignored exactly if the
base of one of them matches the path or a path above it, that is some of its steps from the first
on.  So everything below what is ignored is ignored as well.  And any other lines with the same
bases, whatever their order, how often they stand there, and what else stands between them, are
accepted too and ignore the same. -/
theorem ignores_ofLines {lines warnings : List String} {rules : IgnoreRules}
    (h : ofLines lines = (warnings, .ok rules)) :
    (∀ steps : List String, steps ≠ [] → (∀ s ∈ steps, '/' ∉ s.toList) →
      (rules.ignores ("/".intercalate steps) = true ↔
        ∃ base g, HasBase lines base ∧ Glob.parse? base = some g ∧
          ∃ k, 0 < k ∧ k ≤ steps.length ∧
            g.matchesPath ("/".intercalate (steps.take k)) = true)) ∧
      (∀ path rest, rules.ignores path = true → rules.ignores (path ++ "/" ++ rest) = true) ∧
      ∀ lines', (∀ base, HasBase lines' base ↔ HasBase lines base) →
        ∃ warnings' rules', ofLines lines' = (warnings', .ok rules') ∧
          ∀ path, rules'.ignores path = rules.ignores path := by
  obtain ⟨hbases, hcovers⟩ := ofLines_covers h
  refine ⟨fun steps hne hsteps => ?_, fun path rest hpath => ?_, fun lines' hlines' => ?_⟩
  · rw [hcovers, covers_intercalate_iff hne hsteps]
  · exact ignores_append_slash h rest hpath
  · obtain ⟨warnings', rules', h'⟩ :=
      ofLines_accepts fun base hbase => hbases base ((hlines' base).mp hbase)
    refine ⟨warnings', rules', h', fun path => ?_⟩
    rw [Bool.eq_iff_iff, (ofLines_covers h').2, hcovers, covers_congr hlines']

/-- With a comment and a directory of the working directory, all that is in the directory is
ignored. -/
theorem ignores_ofLines_directory :
    ∃ warnings rules, ofLines ["# built", "/lib/"] = (warnings, .ok rules) ∧
      rules.ignores "lib/deep/a.js" = true := by
  have hbase : ∀ base, HasBase ["# built", "/lib/"] base ↔ base = "lib" := by
    have hcomment : lineOf "# built" = .skipped := by decide
    have hrule : lineOf "/lib/" = .rule "/lib/" := by decide
    have hlib : baseOf "/lib/" = "lib" := by decide
    intro base
    simp [hasBase_iff, hcomment, hrule, hlib, eq_comm]
  have hparse : Glob.parse? "lib" = some ⟨Glob.literals "lib".toList⟩ :=
    Glob.parse?_plain (by simp [Glob.IsPlain])
  obtain ⟨warnings, rules, h⟩ :=
    ofLines_accepts fun base hmem => ⟨_, (hbase base).mp hmem ▸ hparse⟩
  refine ⟨warnings, rules, h, ?_⟩
  exact ((ignores_ofLines h).1 ["lib", "deep", "a.js"] (by simp) (by decide)).mpr
    ⟨"lib", _, (hbase "lib").mpr rfl, hparse, 1, by decide, by decide,
      Glob.matchesPath_literals_iff.mpr rfl⟩

end LintSetup.IgnoreRules
