import LintSetup.Proofs.Json.Spelling
import Mathlib.Data.List.Forall2

/-!
# What the indented text of a value shows

The indented text leaves nothing out and merges nothing.  Two values with the same text are built in
the same way from the same texts and keys, in the same order, and from numbers that are spelled the
same (`SpelledAlike`); the converse holds as well (`indented_eq_iff`).

The text of a value does not say where it ends, so the induction is over a text with something after
it (`indentedChars_append_inj`).  The first character tells the kind of a value
(`kind_eq_of_append_eq`).  Lists and objects are laid out in the same way, between brackets with
commas between the lines (`block`), and one lemma takes such a text apart (`block_append_inj`).
-/

namespace LintSetup

namespace Json

/-! ## Items and members on lines -/

/-- Texts on lines of their own, with commas between them. -/
def lines (level : Nat) : List (List Char) → List Char
  | [] => []
  | [t] => newline level ++ t
  | t :: u :: rest => newline level ++ t ++ ',' :: lines level (u :: rest)

/-- Texts on lines between brackets, which stay closed when there are none. -/
def block (opening closing : Char) (level : Nat) : List (List Char) → List Char
  | [] => [opening, closing]
  | t :: rest => opening :: (lines (level + 1) (t :: rest) ++ newline level ++ [closing])

/-- The text of a member. -/
def memberChars (level : Nat) (m : String × Json) : List Char :=
  quotedChars m.1 ++ ':' :: ' ' :: indentedChars level m.2

theorem indentedItems_eq_lines (level : Nat) (items : List Json) :
    indentedItems level items = lines level (items.map (indentedChars level)) := by
  induction items with
  | nil => rfl
  | cons v rest ih =>
    cases rest with
    | nil => rfl
    | cons w rest =>
      rw [indentedItems, ih]
      rfl

theorem indentedMembers_eq_lines (level : Nat) (members : Members Json) :
    indentedMembers level members = lines level (members.map (memberChars level)) := by
  induction members with
  | nil => rfl
  | cons m rest ih =>
    cases rest with
    | nil => exact List.append_assoc ..
    | cons n rest =>
      rw [indentedMembers, ih]
      simp [lines, memberChars]

theorem indentedChars_arr (level : Nat) (items : List Json) :
    indentedChars level (arr items) =
      block '[' ']' level (items.map (indentedChars (level + 1))) := by
  cases items with
  | nil => rfl
  | cons v rest =>
    rw [indentedChars, indentedItems_eq_lines]
    rfl

theorem indentedChars_obj (level : Nat) (members : Members Json) :
    indentedChars level (obj members) =
      block '\x7b' '\x7d' level (members.map (memberChars (level + 1))) := by
  cases members with
  | nil => rfl
  | cons m rest =>
    rw [indentedChars, indentedMembers_eq_lines]
    rfl

section Lines

variable {α : Type} {g : α → List Char} {S : α → α → Prop}

/-- A text on each line can be told in one way when the texts can, with an end after them. -/
theorem lines_append_inj {level : Nat} {a b : α} {as bs : List α} {r r' : List Char}
    (hg : ∀ x ∈ a :: as, ∀ y r r', Ends r → Ends r' → g x ++ r = g y ++ r' → S x y ∧ r = r')
    (h : lines level ((a :: as).map g) ++ '\n' :: r = lines level ((b :: bs).map g) ++ '\n' :: r') :
    List.Forall₂ S (a :: as) (b :: bs) ∧ r = r' := by
  induction as generalizing a b bs with
  | nil =>
    cases bs with
    | nil =>
      simp only [List.map_cons, List.map_nil, lines, List.append_assoc] at h
      obtain ⟨hab, hr⟩ := hg a List.mem_cons_self b _ _ (ends_lineFeed r) (ends_lineFeed r')
        (List.append_cancel_left h)
      exact ⟨.cons hab .nil, (List.cons.inj hr).2⟩
    | cons b' bs =>
      simp only [List.map_cons, List.map_nil, lines, List.append_assoc, List.cons_append] at h
      obtain ⟨-, hr⟩ := hg a List.mem_cons_self b _ _ (ends_lineFeed r) (ends_comma _)
        (List.append_cancel_left h)
      exact absurd (List.cons.inj hr).1 (by decide)
  | cons a' as ih =>
    cases bs with
    | nil =>
      simp only [List.map_cons, List.map_nil, lines, List.append_assoc, List.cons_append] at h
      obtain ⟨-, hr⟩ := hg a List.mem_cons_self b _ _ (ends_comma _) (ends_lineFeed r')
        (List.append_cancel_left h)
      exact absurd (List.cons.inj hr).1 (by decide)
    | cons b' bs =>
      simp only [List.map_cons, lines, List.append_assoc, List.cons_append] at h
      obtain ⟨hab, hr⟩ := hg a List.mem_cons_self b _ _ (ends_comma _) (ends_comma _)
        (List.append_cancel_left h)
      obtain ⟨hrest, hr⟩ := ih (fun x hx => hg x (List.mem_cons_of_mem a hx)) (List.cons.inj hr).2
      exact ⟨.cons hab hrest, hr⟩

theorem lines_cons (level : Nat) (t : List Char) (rest : List (List Char)) :
    ∃ cs, lines level (t :: rest) = '\n' :: cs := by
  cases rest with
  | nil => exact ⟨_, rfl⟩
  | cons u rest => exact ⟨_, rfl⟩

/-- So can texts between brackets. -/
theorem block_append_inj {opening closing : Char} (hclosing : closing ≠ '\n') {level : Nat}
    {as bs : List α} {r r' : List Char}
    (hg : ∀ x ∈ as, ∀ y r r', Ends r → Ends r' → g x ++ r = g y ++ r' → S x y ∧ r = r')
    (h : block opening closing level (as.map g) ++ r =
      block opening closing level (bs.map g) ++ r') :
    List.Forall₂ S as bs ∧ r = r' := by
  cases as with
  | nil =>
    cases bs with
    | nil => exact ⟨.nil, List.append_cancel_left h⟩
    | cons b bs =>
      obtain ⟨cs, hcs⟩ := lines_cons (level + 1) (g b) (bs.map g)
      simp only [List.map_cons, List.map_nil, block, hcs, List.cons_append, List.cons.injEq] at h
      exact absurd h.2.1 hclosing
  | cons a as =>
    cases bs with
    | nil =>
      obtain ⟨cs, hcs⟩ := lines_cons (level + 1) (g a) (as.map g)
      simp only [List.map_cons, List.map_nil, block, hcs, List.cons_append, List.cons.injEq] at h
      exact absurd h.2.1.symm hclosing
    | cons b bs =>
      simp only [List.map_cons, block, newline, List.append_assoc, List.cons_append,
        List.cons.injEq, true_and] at h
      obtain ⟨hall, hr⟩ := lines_append_inj hg h
      exact ⟨hall, (List.cons.inj (List.append_cancel_left hr)).2⟩

end Lines

/-! ## Kinds of values -/

/-- The kinds of values. -/
inductive Kind where
  | null
  | bool
  | num
  | str
  | arr
  | obj

/-- The kind of a value. -/
def kind : Json → Kind
  | null => .null
  | bool _ => .bool
  | num _ => .num
  | str _ => .str
  | arr _ => .arr
  | obj _ => .obj

/-- The kind of a value whose text starts with a character. -/
def kindOf (c : Char) : Kind :=
  if c = 'n' then .null
  else if c = 't' ∨ c = 'f' then .bool
  else if c = '\x22' then .str
  else if c = '[' then .arr
  else if c = '\x7b' then .obj
  else .num

theorem kindOf_of_isNumeral {c : Char} (h : isNumeral c = true) : kindOf c = .num := by
  unfold kindOf
  split_ifs with hn hb hs ha ho
  · exact absurd h (hn ▸ by decide)
  · rcases hb with rfl | rfl <;> exact absurd h (by decide)
  · exact absurd h (hs ▸ by decide)
  · exact absurd h (ha ▸ by decide)
  · exact absurd h (ho ▸ by decide)
  · rfl

/-- The first character of a text tells the kind of the value. -/
theorem kind_of_head? (level : Nat) (v : Json) :
    ∃ c cs, indentedChars level v = c :: cs ∧ kindOf c = v.kind := by
  cases v with
  | null => exact ⟨_, _, rfl, rfl⟩
  | bool b => cases b <;> exact ⟨_, _, rfl, rfl⟩
  | num n =>
    obtain ⟨c, cs, hcs⟩ := List.exists_cons_of_ne_nil n.chars_ne_nil
    have hc : isNumeral c = true := n.isNumeral_chars c (hcs ▸ List.mem_cons_self)
    exact ⟨c, cs, hcs, kindOf_of_isNumeral hc⟩
  | str s => exact ⟨_, _, rfl, rfl⟩
  | arr items => cases items <;> exact ⟨_, _, rfl, rfl⟩
  | obj members => cases members <;> exact ⟨_, _, rfl, rfl⟩

theorem kind_eq_of_append_eq {level : Nat} {v w : Json} {r r' : List Char}
    (h : indentedChars level v ++ r = indentedChars level w ++ r') : v.kind = w.kind := by
  obtain ⟨c, cs, hc, hkind⟩ := kind_of_head? level v
  obtain ⟨c', cs', hc', hkind'⟩ := kind_of_head? level w
  rw [hc, hc', List.cons_append, List.cons_append, List.cons.injEq] at h
  rw [← hkind, ← hkind', h.1]

/-! ## Values that are spelled alike -/

/-- Two values are the same but for numbers that are written with the same characters. -/
inductive SpelledAlike : Json → Json → Prop
  | null : SpelledAlike .null .null
  | bool (b : Bool) : SpelledAlike (.bool b) (.bool b)
  | num {m n : Number} (chars : m.chars = n.chars) : SpelledAlike (.num m) (.num n)
  | str (s : String) : SpelledAlike (.str s) (.str s)
  | arr {vs ws : List Json} (items : List.Forall₂ SpelledAlike vs ws) :
      SpelledAlike (.arr vs) (.arr ws)
  | obj {ms ns : Members Json} (keys : Members.keys ms = Members.keys ns)
      (values : List.Forall₂ SpelledAlike (ms.map (·.2)) (ns.map (·.2))) :
      SpelledAlike (.obj ms) (.obj ns)

/-- Induction over values: what lists have when their items do, objects when the values of their
members do, and all other values anyway, every value has. -/
@[elab_as_elim]
theorem inductionOn {P : Json → Prop} (null : P .null) (bool : ∀ b, P (.bool b)) (num : ∀ n, P (.num n))
    (str : ∀ s, P (.str s)) (arr : ∀ items : List Json, (∀ v ∈ items, P v) → P (.arr items))
    (obj : ∀ members : Members Json, (∀ m ∈ members, P m.2) → P (.obj members)) (v : Json) : P v :=
  @Json.rec P (fun items => ∀ v ∈ items, P v) (fun members => ∀ m ∈ members, P m.2) (fun m => P m.2)
    null bool num str arr obj (List.forall_mem_nil P)
    (fun _ _ hv hrest => List.forall_mem_cons.mpr ⟨hv, hrest⟩) (List.forall_mem_nil _)
    (fun _ _ hm hrest => List.forall_mem_cons.mpr ⟨hm, hrest⟩) (fun _ _ hv => hv) v

theorem forall₂_members_iff {R : Json → Json → Prop} {ms ns : Members Json} :
    List.Forall₂ (fun m n => m.1 = n.1 ∧ R m.2 n.2) ms ns ↔
      Members.keys ms = Members.keys ns ∧ List.Forall₂ R (ms.map (·.2)) (ns.map (·.2)) := by
  induction ms generalizing ns with
  | nil => cases ns <;> simp [Members.keys]
  | cons m ms ih =>
    cases ns with
    | nil => simp [Members.keys]
    | cons n ns =>
      have hkeys : ∀ (m : String × Json) ms, Members.keys (m :: ms) = m.1 :: Members.keys ms :=
        fun _ _ => rfl
      rw [List.forall₂_cons, ih, hkeys, hkeys, List.cons.injEq, List.map_cons, List.map_cons,
        List.forall₂_cons]
      tauto

/-- **Telling a value from its text.**  Of two texts with an end after them, the values are spelled
alike, and the same comes after them. -/
theorem indentedChars_append_inj {v w : Json} {level : Nat} {r r' : List Char} (hr : Ends r)
    (hr' : Ends r') (h : indentedChars level v ++ r = indentedChars level w ++ r') :
    SpelledAlike v w ∧ r = r' := by
  have hkind := kind_eq_of_append_eq h
  induction v using inductionOn generalizing w level r r' with
  | null =>
    cases w with
    | null => exact ⟨.null, List.append_cancel_left h⟩
    | _ => nomatch hkind
  | bool b =>
    cases w with
    | bool c =>
      cases b <;> cases c
      · exact ⟨.bool false, List.append_cancel_left h⟩
      · exact absurd (List.cons.inj h).1 (by decide)
      · exact absurd (List.cons.inj h).1 (by decide)
      · exact ⟨.bool true, List.append_cancel_left h⟩
    | _ => nomatch hkind
  | num m =>
    cases w with
    | num n =>
      obtain ⟨hchars, hrest⟩ := chars_append_inj hr hr' h
      exact ⟨.num hchars, hrest⟩
    | _ => nomatch hkind
  | str s =>
    cases w with
    | str t =>
      obtain ⟨rfl, hrest⟩ := quotedChars_append_inj h
      exact ⟨.str s, hrest⟩
    | _ => nomatch hkind
  | arr vs ih =>
    cases w with
    | arr ws =>
      rw [indentedChars_arr, indentedChars_arr] at h
      obtain ⟨hall, hrest⟩ := block_append_inj (by decide)
        (fun v hv w r r' hr hr' h => ih v hv hr hr' h (kind_eq_of_append_eq h)) h
      exact ⟨.arr hall, hrest⟩
    | _ => nomatch hkind
  | obj ms ih =>
    cases w with
    | obj ns =>
      rw [indentedChars_obj, indentedChars_obj] at h
      have hmember : ∀ m ∈ ms, ∀ n r r', Ends r → Ends r' →
          memberChars (level + 1) m ++ r = memberChars (level + 1) n ++ r' →
          (m.1 = n.1 ∧ SpelledAlike m.2 n.2) ∧ r = r' := by
        intro m hm n r r' hr hr' h
        rw [memberChars, memberChars, List.append_assoc, List.append_assoc] at h
        obtain ⟨hkey, hvalue⟩ := quotedChars_append_inj h
        have hvalue := (List.cons.inj (List.cons.inj hvalue).2).2
        obtain ⟨halike, hrest⟩ := ih m hm hr hr' hvalue (kind_eq_of_append_eq hvalue)
        exact ⟨⟨hkey, halike⟩, hrest⟩
      obtain ⟨hall, hrest⟩ := block_append_inj (by decide) hmember h
      obtain ⟨hkeys, hvalues⟩ := forall₂_members_iff.mp hall
      exact ⟨.obj hkeys hvalues, hrest⟩
    | _ => nomatch hkind

/-- Values that are spelled alike have the same text. -/
theorem SpelledAlike.indentedChars_eq {v w : Json} (h : SpelledAlike v w) (level : Nat) :
    indentedChars level v = indentedChars level w := by
  induction v using inductionOn generalizing w level with
  | null => cases h; rfl
  | bool b => cases h; rfl
  | num m =>
    cases h with
    | num chars => exact chars
  | str s => cases h; rfl
  | arr vs ih =>
    cases h with
    | @arr _ ws items =>
      have hall := ((List.forall₂_and_left vs ws).mpr ⟨ih, items⟩).imp
        fun v w h => h.1 h.2 (level + 1)
      have htexts : vs.map (indentedChars (level + 1)) = ws.map (indentedChars (level + 1)) := by
        rw [← List.forall₂_eq_eq_eq, List.forall₂_map_left_iff, List.forall₂_map_right_iff]
        exact hall
      rw [indentedChars_arr, indentedChars_arr, htexts]
  | obj ms ih =>
    cases h with
    | @obj _ ns keys values =>
      have hall := ((List.forall₂_and_left ms ns).mpr
        ⟨ih, forall₂_members_iff.mpr ⟨keys, values⟩⟩).imp
        fun m n h => And.intro h.2.1 (h.1 h.2.2 (level + 1))
      have htexts : ms.map (memberChars (level + 1)) = ns.map (memberChars (level + 1)) := by
        rw [← List.forall₂_eq_eq_eq, List.forall₂_map_left_iff, List.forall₂_map_right_iff]
        refine hall.imp fun m n h => ?_
        rw [memberChars, memberChars, h.1, h.2]
      rw [indentedChars_obj, indentedChars_obj, htexts]

/-- **The indented text leaves nothing out.**  Two values have the same text exactly when they are
the same but for the numbers in them, and these are written with the same characters. -/
theorem indented_eq_iff {v w : Json} : v.indented = w.indented ↔ SpelledAlike v w := by
  rw [indented, indented, String.ofList_inj]
  constructor
  · intro h
    have happend : indentedChars 0 v ++ [] = indentedChars 0 w ++ [] := by rw [h]
    exact (indentedChars_append_inj ends_nil ends_nil happend).1
  · intro h
    exact h.indentedChars_eq 0

end Json
end LintSetup
