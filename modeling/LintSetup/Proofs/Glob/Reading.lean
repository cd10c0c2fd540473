import LintSetup.Glob.Parse
import LintSetup.Proofs.Glob.Matching
import LintSetup.Proofs.Text.Utf8

/-!
# A glob with everything below it

Putting `/**` after the text of a glob is meant to put any directories below what the glob stands
for.  The text is read as a whole, though, and two stars merge with directories that stand before
them: after `**` alone and after a text that ends in `/**`, nothing is added.  Neither of those two
globs has anything below it that it does not match already.

* `next?` --- one step of the reading, and `next?_append`: except for two stars at the end of the
  text, a step does not look past it;
* `Reader.WellPlaced` --- directories at the start stand nowhere else, whatever is read;
* `Below` --- the parts of a glob against those of the text with `/**` after it;
* `read_below` --- these are what is read;
* `parse?_below`, `matchesPath_below` --- so that text is a glob whenever the other is, and the two
  match exactly what the one matches and what is below that.
-/

namespace LintSetup.Glob

open Text (Bytes)

/-! ## One step of the reading -/

/-- Reads a character and what belongs to it. -/
def next? (r : Reader) (c : Char) (cs : List Char) : Option (Reader × List Char) :=
  if c = '?' then some (r.push .anyByte c, cs)
  else if c = '*' then
    match cs with
    | '*' :: cs => some (r.doubleStar cs)
    | _ => some (r.push .star c, cs)
  else if c = '[' then (readClass cs).map fun (p, cs) => (r.push p ']', cs)
  else if c = '\x7b' then some (r.openBrace, cs)
  else if c = '\x7d' then r.closeBrace.map fun r => (r, cs)
  else if c = ',' then some (r.comma, cs)
  else if c = '\\' then
    match cs with
    | [] => none
    | e :: cs => some (r.push (.literal (charBytes e)) e, cs)
  else some (r.push (.literal (charBytes c)) c, cs)

/-! One star is read alone if no other follows it. -/

theorem next?_star {r : Reader} {cs : List Char} (h : ∀ rest, cs ≠ '*' :: rest) :
    next? r '*' cs = some (r.push .star '*', cs) := by
  unfold next?
  simp

theorem read_star {fuel : Nat} {r : Reader} {cs : List Char} (h : ∀ rest, cs ≠ '*' :: rest) :
    read (fuel + 1) r ('*' :: cs) = read fuel (r.push .star '*') cs := by
  rw [read.eq_def]
  simp

/-- Reading goes on from what a step leaves. -/
theorem read_cons {fuel : Nat} {r : Reader} {c : Char} {cs : List Char} :
    read (fuel + 1) r (c :: cs) = (next? r c cs).bind fun p => read fuel p.1 p.2 := by
  by_cases hstar : c = '*'
  · subst hstar
    by_cases hcs : ∃ rest, cs = '*' :: rest
    · obtain ⟨rest, rfl⟩ := hcs
      rfl
    · have hcs' : ∀ rest, cs ≠ '*' :: rest := fun rest heq => hcs ⟨rest, heq⟩
      rw [read_star hcs', next?_star hcs', Option.bind_some]
  rw [read.eq_def]
  unfold next?
  simp only
  split
  · rfl
  split
  · cases readClass cs <;> rfl
  split
  · rfl
  split
  · cases r.closeBrace <;> rfl
  split
  · rfl
  split
  · cases cs <;> rfl
  · rfl

/-! ## Reading more text -/

theorem readRanges_append {first inRange : Bool} {ranges ranges' : List (Char × Char)}
    {cs rest : List Char} (t : List Char)
    (h : readRanges first inRange ranges cs = some (ranges', rest)) :
    readRanges first inRange ranges (cs ++ t) = some (ranges', rest ++ t) := by
  induction cs generalizing first inRange ranges with
  | nil => cases h
  | cons c cs ih =>
    rw [readRanges] at h
    rw [List.cons_append, readRanges]
    split at h
    · cases h
      rw [if_pos ‹_›]
    rw [if_neg ‹_›]
    split at h
    · rw [if_pos ‹_›, ih h]
    rw [if_neg ‹_›]
    split at h
    · rw [if_pos ‹_›]
      split at h
      · exact ih h
      · cases h
    · rw [if_neg ‹_›, ih h]

/-- The class with the ranges that were read, and what follows it. -/
def classOf (negated : Bool) (p : List (Char × Char) × List Char) : Part × List Char :=
  (.oneOf negated (p.1.flatMap fun range => byteRanges range.1 range.2), p.2)

theorem readClass_append {cs rest : List Char} {p : Part} (t : List Char)
    (h : readClass cs = some (p, rest)) : readClass (cs ++ t) = some (p, rest ++ t) := by
  have hranges : ∀ {negated : Bool} {cs : List Char},
      (readRanges true false [] cs).map (classOf negated) = some (p, rest) →
      (readRanges true false [] (cs ++ t)).map (classOf negated) = some (p, rest ++ t) := by
    intro negated cs h
    obtain ⟨⟨ranges, rest'⟩, hread, heq⟩ := Option.map_eq_some_iff.mp h
    obtain ⟨rfl, rfl⟩ := Prod.mk.inj heq
    rw [readRanges_append t hread, Option.map_some]
    rfl
  match cs with
  | [] => cases h
  | c :: cs =>
    rw [List.cons_append]
    by_cases hbang : c = '!'
    · subst hbang
      exact hranges h
    by_cases hcaret : c = '^'
    · subst hcaret
      exact hranges h
    have hplain : ∀ cs, readClass (c :: cs) =
        (readRanges true false [] (c :: cs)).map (classOf false) := by
      intro cs
      unfold readClass
      split
      next heq =>
      split at heq
      · next h => exact absurd (List.cons.inj h).1 hbang
      · next h => exact absurd (List.cons.inj h).1 hcaret
      · cases heq
        rfl
    rw [hplain] at h ⊢
    exact hranges h

/-- What follows a double star is looked at for one character only. -/
theorem Reader.doubleStar_append {r : Reader} {cs : List Char} (t : List Char) (hcs : cs ≠ []) :
    r.doubleStar (cs ++ t) = ((r.doubleStar cs).1, (r.doubleStar cs).2 ++ t) := by
  obtain ⟨c, cs, rfl⟩ := List.exists_cons_of_ne_nil hcs
  rw [List.cons_append]
  unfold doubleStar
  by_cases hc : c = '/'
  · subst hc
    split
    · rfl
    · split <;> rfl
  · repeat' split
    all_goals grind

/-- A step of the reading does not see what is put after the text, unless the step is two stars at
the end of the text or what is put there starts with a star. -/
theorem next?_append {r r' : Reader} {c : Char} {cs rest t : List Char}
    (h : next? r c cs = some (r', rest)) (hstars : c = '*' → cs ≠ ['*']) (ht : t.head? ≠ some '*') :
    next? r c (cs ++ t) = some (r', rest ++ t) := by
  unfold next? at h ⊢
  split at h
  · rw [if_pos ‹_›]
    cases h
    rfl
  rw [if_neg ‹_›]
  split at h
  · next hc =>
    rw [if_pos hc]
    split at h
    · next cs =>
      have hcs : cs ≠ [] := fun heq => hstars hc (by rw [heq])
      rw [List.cons_append]
      simp only
      rw [Reader.doubleStar_append t hcs, Option.some.inj h]
    · next hstar =>
      cases h
      split
      · next cs' heq =>
        match cs with
        | [] => exact absurd (by rw [← List.nil_append t, heq, List.head?_cons]) ht
        | d :: cs => exact absurd (by rw [(List.cons.inj heq).1]) (hstar cs)
      · rfl
  rw [if_neg ‹_›]
  split at h
  · rw [if_pos ‹_›]
    obtain ⟨⟨p, rest'⟩, hclass, heq⟩ := Option.map_eq_some_iff.mp h
    obtain ⟨rfl, rfl⟩ := Prod.mk.inj heq
    rw [readClass_append t hclass, Option.map_some]
  rw [if_neg ‹_›]
  split at h
  · rw [if_pos ‹_›]
    cases h
    rfl
  rw [if_neg ‹_›]
  split at h
  · rw [if_pos ‹_›]
    obtain ⟨r'', hclose, heq⟩ := Option.map_eq_some_iff.mp h
    obtain ⟨rfl, rfl⟩ := Prod.mk.inj heq
    rw [hclose, Option.map_some]
  rw [if_neg ‹_›]
  split at h
  · rw [if_pos ‹_›]
    cases h
    rfl
  rw [if_neg ‹_›]
  split at h
  · rw [if_pos ‹_›]
    split at h
    · cases h
    · cases h
      rfl
  rw [if_neg ‹_›]
  cases h
  rfl

/-! ## Directories at the start -/

/-- Directories at the start stand nowhere but at the start of a branch. -/
structure Reader.WellPlaced (r : Reader) : Prop where
  parts : Part.dirsFirst ∉ r.parts.tail
  before : ∀ b ∈ r.braces, Part.dirsFirst ∉ b.before.tail

theorem not_mem_tail_concat {α : Type} {a b : α} {as : List α} (ha : a ∉ as.tail) (hb : a ≠ b) :
    a ∉ (as ++ [b]).tail := by
  cases as with
  | nil => exact List.not_mem_nil
  | cons c as =>
    rw [List.cons_append, List.tail_cons, List.mem_append, List.mem_singleton, not_or]
    exact ⟨ha, hb⟩

namespace Reader

variable {r r' : Reader}

theorem WellPlaced.push (hr : r.WellPlaced) {p : Part} (hp : p ≠ .dirsFirst) (last : Char) :
    (r.push p last).WellPlaced :=
  ⟨not_mem_tail_concat hr.parts hp.symm, hr.before⟩

theorem WellPlaced.pushStars (hr : r.WellPlaced) : r.pushStars.WellPlaced :=
  (hr.push (by simp) '*').push (by simp) '*'

/-- Directories that merge with directories at the start are all that there is. -/
theorem WellPlaced.eq_of_getLast? (hr : r.WellPlaced) (h : r.parts.getLast? = some .dirsFirst) :
    r.parts = [.dirsFirst] := by
  obtain ⟨front, hfront⟩ := List.getLast?_eq_some_iff.mp h
  match front with
  | [] => exact hfront
  | p :: front =>
    refine absurd ?_ hr.parts
    rw [hfront]
    simp

theorem WellPlaced.replaceLast (hr : r.WellPlaced) {p : Part} (hp : p ≠ .dirsFirst)
    (last : Char) : (r.replaceLast p last).WellPlaced := by
  have htail : Part.dirsFirst ∉ r.parts.dropLast.tail := by
    rw [List.tail_dropLast]
    exact fun hmem => hr.parts (List.dropLast_subset _ hmem)
  refine ⟨?_, hr.before⟩
  unfold Reader.replaceLast
  simp only
  split
  · next h =>
    rw [hr.eq_of_getLast? h]
    exact List.not_mem_nil
  · exact not_mem_tail_concat htail (by simp)
  · exact not_mem_tail_concat htail hp.symm

theorem WellPlaced.doubleStar (hr : r.WellPlaced) (cs : List Char) :
    (r.doubleStar cs).1.WellPlaced := by
  have hstart : ∀ last, r.parts.isEmpty → (r.push .dirsFirst last).WellPlaced := by
    intro last hempty
    refine ⟨?_, hr.before⟩
    rw [Reader.push, List.isEmpty_iff.mp hempty]
    exact List.not_mem_nil
  unfold Reader.doubleStar
  split
  · next hempty =>
    split
    · exact hstart _ hempty
    · exact hstart _ hempty
    · exact hr.pushStars
  · split
    · split
      · exact hr.replaceLast (by simp) _
      · exact hr.replaceLast (by simp) _
      · split
        · exact hr.replaceLast (by simp) _
        · exact hr.pushStars
    · exact hr.pushStars

theorem WellPlaced.openBrace (hr : r.WellPlaced) : r.openBrace.WellPlaced :=
  ⟨List.not_mem_nil, List.forall_mem_cons.mpr ⟨hr.parts, hr.before⟩⟩

theorem WellPlaced.comma (hr : r.WellPlaced) : r.comma.WellPlaced := by
  unfold Reader.comma
  split
  · exact hr.push (by simp) _
  · next b rest hbraces =>
    obtain ⟨hb, hrest⟩ := List.forall_mem_cons.mp (hbraces ▸ hr.before)
    exact ⟨List.not_mem_nil, List.forall_mem_cons.mpr ⟨hb, hrest⟩⟩

theorem WellPlaced.closeBrace (hr : r.WellPlaced) (h : r.closeBrace = some r') :
    r'.WellPlaced := by
  unfold Reader.closeBrace at h
  split at h
  · cases h
  · next b rest hbraces =>
    obtain ⟨hb, hrest⟩ := List.forall_mem_cons.mp (hbraces ▸ hr.before)
    cases h
    exact ⟨not_mem_tail_concat hb (by simp), hrest⟩

end Reader

theorem readClass_ne_dirsFirst {cs rest : List Char} {p : Part}
    (h : readClass cs = some (p, rest)) : p ≠ .dirsFirst := by
  unfold readClass at h
  obtain ⟨_, _, heq⟩ := Option.map_eq_some_iff.mp h
  rw [← (Prod.mk.inj heq).1]
  simp

/-- A step of the reading keeps directories at the start where they belong. -/
theorem Reader.WellPlaced.next? {r r' : Reader} {c : Char} {cs rest : List Char}
    (hr : r.WellPlaced) (h : next? r c cs = some (r', rest)) : r'.WellPlaced := by
  unfold Glob.next? at h
  split at h
  · cases h
    exact hr.push (by simp) _
  split at h
  · split at h
    · next cs =>
      have hr' : (r.doubleStar cs).1 = r' := congrArg Prod.fst (Option.some.inj h)
      rw [← hr']
      exact hr.doubleStar cs
    · cases h
      exact hr.push (by simp) _
  split at h
  · obtain ⟨⟨p, rest'⟩, hclass, heq⟩ := Option.map_eq_some_iff.mp h
    obtain ⟨rfl, rfl⟩ := Prod.mk.inj heq
    exact hr.push (readClass_ne_dirsFirst hclass) _
  split at h
  · cases h
    exact hr.openBrace
  split at h
  · obtain ⟨r'', hclose, heq⟩ := Option.map_eq_some_iff.mp h
    obtain ⟨rfl, rfl⟩ := Prod.mk.inj heq
    exact hr.closeBrace hclose
  split at h
  · cases h
    exact hr.comma
  split at h
  · split at h
    · cases h
    · cases h
      exact hr.push (by simp) _
  · cases h
    exact hr.push (by simp) _

/-! ## Everything below a glob -/

/-- The text of a glob with everything below it goes on with this. -/
def belowText : List Char := ['/', '*', '*']

/-- The parts of a glob, and the parts of its text with `/**` after it: any directories are put
after them, unless there is nothing else or any directories stand there already. -/
inductive Below : List Part → List Part → Prop
  | appended (ps : List Part) : Below ps (ps ++ [.dirsBelow])
  | everything : Below [.dirsFirst] [.dirsFirst]
  | merged (front : List Part) : Below (front ++ [.dirsBelow]) (front ++ [.dirsBelow])

theorem read_nil {fuel : Nat} {r : Reader} : read fuel r [] = some r := by
  cases fuel <;> rfl

/-! Two stars are read in one of three ways. -/

namespace Reader

variable {r : Reader}

theorem doubleStar_of_empty (h : r.parts = []) :
    r.doubleStar [] = (r.push .dirsFirst '*', []) ∧
      r.doubleStar belowText = (r.push .dirsFirst '/', ['*', '*']) := by
  have hempty : r.parts.isEmpty = true := List.isEmpty_iff.mpr h
  unfold doubleStar
  rw [if_pos hempty, if_pos hempty]
  exact ⟨rfl, rfl⟩

theorem doubleStar_of_mayStart (h : r.parts ≠ []) (hstart : r.mayStartDirectories = true) :
    r.doubleStar [] = (r.replaceLast .dirsBelow '*', []) ∧
      r.doubleStar belowText = (r.replaceLast .dirsBetween '/', ['*', '*']) := by
  have hfull : ¬ r.parts.isEmpty = true := mt List.isEmpty_iff.mp h
  unfold doubleStar
  rw [if_neg hfull, if_neg hfull, if_pos hstart, if_pos hstart]
  exact ⟨rfl, rfl⟩

theorem doubleStar_of_not_mayStart (h : r.parts ≠ []) (hstart : ¬ r.mayStartDirectories = true)
    (cs : List Char) : r.doubleStar cs = (r.pushStars, cs) := by
  unfold doubleStar
  rw [if_neg (mt List.isEmpty_iff.mp h), if_neg hstart]

end Reader

/-- Two stars after a slash at the end of the text. -/
theorem read_stars {fuel : Nat} {r : Reader} (hparts : r.parts ≠ []) (hlast : r.last = some '/') :
    read (fuel + 1) r ['*', '*'] = some (r.replaceLast .dirsBelow '*') := by
  have hstart : r.mayStartDirectories = true := by
    rw [Reader.mayStartDirectories, hlast, beq_self_eq_true, Bool.true_or]
  have hnext : next? r '*' ['*'] = some (r.doubleStar []) := rfl
  rw [read_cons, hnext, (Reader.doubleStar_of_mayStart hparts hstart).1, Option.bind_some, read_nil]

/-- After anything else than two stars, any directories are put after what was read. -/
theorem read_belowText {fuel : Nat} {r : Reader} :
    read (fuel + 2) r belowText = some ⟨r.braces, r.parts ++ [.dirsBelow], some '*'⟩ := by
  have hnext : next? r '/' ['*', '*'] =
      some (r.push (.literal (charBytes '/')) '/', ['*', '*']) := rfl
  have hparts : (r.push (.literal (charBytes '/')) '/').parts ≠ [] :=
    List.append_ne_nil_of_right_ne_nil _ (List.cons_ne_nil _ _)
  rw [belowText, read_cons, hnext, Option.bind_some, read_stars hparts rfl]
  simp [Reader.replaceLast, Reader.push]

namespace Reader

variable {r : Reader}

theorem replaceLast_ne_nil (p : Part) (last : Char) : (r.replaceLast p last).parts ≠ [] :=
  List.append_ne_nil_of_right_ne_nil _ (List.cons_ne_nil _ _)

/-- Directories below take the place of directories between. -/
theorem replaceLast_replaceLast (last last' : Char) :
    (r.replaceLast .dirsBetween last).replaceLast .dirsBelow last' =
      r.replaceLast .dirsBelow last' := by
  unfold replaceLast
  simp only [List.getLast?_concat, List.dropLast_concat]
  cases r.parts.getLast? with
  | none => rfl
  | some p => cases p <;> rfl

/-- Directories below merge with themselves and with directories at the start. -/
theorem WellPlaced.below_replaceLast (hr : r.WellPlaced) (last : Char) :
    Below (r.replaceLast .dirsBelow last).parts (r.replaceLast .dirsBelow last).parts := by
  unfold Reader.replaceLast
  simp only
  split
  · next h =>
    rw [hr.eq_of_getLast? h]
    exact .everything
  · exact .merged r.parts.dropLast
  · exact .merged r.parts.dropLast

theorem doubleStar_nil : (r.doubleStar []).2 = [] ∧ (r.doubleStar []).1.braces = r.braces := by
  unfold doubleStar
  split
  · exact ⟨rfl, rfl⟩
  · split <;> exact ⟨rfl, rfl⟩

/-- Two stars at the end of a text against the same two stars with `/**` after them. -/
theorem WellPlaced.read_doubleStar (hr : r.WellPlaced) (hbraces : r.braces = []) (fuel : Nat) :
    ∃ parts last, read (fuel + 2) (r.doubleStar belowText).1 (r.doubleStar belowText).2 =
        some ⟨[], parts, last⟩ ∧ Below (r.doubleStar []).1.parts parts := by
  by_cases hparts : r.parts = []
  · obtain ⟨hnil, hbelow⟩ := doubleStar_of_empty hparts
    have hread : read (fuel + 2) (r.push .dirsFirst '/') ['*', '*'] =
        some ⟨[], [.dirsFirst], some '*'⟩ := by
      rw [read_stars (List.append_ne_nil_of_right_ne_nil _ (List.cons_ne_nil _ _)) rfl]
      simp [Reader.replaceLast, Reader.push, hparts, hbraces]
    have hfirst : (r.push .dirsFirst '*').parts = [.dirsFirst] := by
      rw [Reader.push, hparts, List.nil_append]
    rw [hnil, hbelow, hfirst]
    exact ⟨_, _, hread, .everything⟩
  by_cases hstart : r.mayStartDirectories = true
  · obtain ⟨hnil, hbelow⟩ := doubleStar_of_mayStart hparts hstart
    have hread : read (fuel + 2) (r.replaceLast .dirsBetween '/') ['*', '*'] =
        some ⟨[], (r.replaceLast .dirsBelow '*').parts, some '*'⟩ := by
      rw [read_stars (replaceLast_ne_nil _ _) rfl, replaceLast_replaceLast, ← hbraces]
      rfl
    rw [hnil, hbelow]
    exact ⟨_, _, hread, hr.below_replaceLast '*'⟩
  · have hread : read (fuel + 2) r.pushStars belowText =
        some ⟨[], r.pushStars.parts ++ [.dirsBelow], some '*'⟩ := by
      rw [read_belowText, ← hbraces]
      rfl
    rw [doubleStar_of_not_mayStart hparts hstart, doubleStar_of_not_mayStart hparts hstart]
    exact ⟨_, _, hread, .appended _⟩

end Reader

/-- **What is read with `/**` after a text.**  The induction is on the steps of the reading, which
are the same for both texts as long as the first has anything left besides two stars. -/
theorem read_below {fuel : Nat} {r r' : Reader} {cs : List Char} (hr : r.WellPlaced)
    (h : read fuel r cs = some r') (hbraces : r'.braces = []) :
    ∃ parts last, read (fuel + 3) r (cs ++ belowText) = some ⟨[], parts, last⟩ ∧
      Below r'.parts parts := by
  induction fuel generalizing r cs with
  | zero =>
    match cs with
    | [] =>
      obtain rfl := Option.some.inj (read_nil.symm.trans h)
      exact ⟨_, _, by rw [List.nil_append, read_belowText, hbraces], .appended _⟩
    | c :: cs => cases h
  | succ fuel ih =>
    match cs with
    | [] =>
      obtain rfl := Option.some.inj (read_nil.symm.trans h)
      exact ⟨_, _, by rw [List.nil_append, read_belowText, hbraces], .appended _⟩
    | c :: cs =>
      rw [read_cons] at h
      obtain ⟨⟨s, rest⟩, hnext, hread⟩ := Option.bind_eq_some_iff.mp h
      rw [List.cons_append, read_cons]
      by_cases hstars : c = '*' ∧ cs = ['*']
      · obtain ⟨rfl, rfl⟩ := hstars
        have hs : r.doubleStar [] = (s, rest) := Option.some.inj hnext
        obtain rfl : (r.doubleStar []).1 = s := congrArg Prod.fst hs
        obtain rfl : [] = rest := Reader.doubleStar_nil.1.symm.trans (congrArg Prod.snd hs)
        obtain rfl := Option.some.inj (read_nil.symm.trans hread)
        exact hr.read_doubleStar (Reader.doubleStar_nil.2.symm.trans hbraces) (fuel + 1)
      · have hnext' : next? r c (cs ++ belowText) = some (s, rest ++ belowText) :=
          next?_append hnext (fun hc hcs => hstars ⟨hc, hcs⟩) (by decide)
        rw [hnext', Option.bind_some]
        exact ih (hr.next? hnext) hread

/-- **The text of a glob with `/**` after it is a glob again.** -/
theorem parse?_below {base : String} {g : Glob} (h : parse? base = some g) :
    ∃ below, parse? (base ++ "/**") = some below ∧ Below g.parts below.parts := by
  have hstart : Reader.WellPlaced ⟨[], [], none⟩ := ⟨List.not_mem_nil, by simp⟩
  unfold parse? at h
  simp only at h
  split at h
  · next parts last hread =>
    obtain rfl := Option.some.inj h
    obtain ⟨parts', last', hread', hbelow⟩ := read_below hstart hread rfl
    have htext : (base ++ "/**").toList = base.toList ++ belowText := String.toList_append
    refine ⟨⟨parts'⟩, ?_, hbelow⟩
    unfold parse?
    simp only [htext, List.length_append]
    rw [show belowText.length = 3 from rfl, hread']
  · cases h

/-! ## What it matches -/

/-- What is below a text that directories below something match, they match as well. -/
theorem partsTake_dirsBelow_append {front : List Part} {q : Bytes} (r : Bytes)
    (h : PartsTake (front ++ [.dirsBelow]) q) :
    PartsTake (front ++ [.dirsBelow]) (q ++ slash :: r) := by
  obtain ⟨q, s, rfl, hq⟩ := partsTake_concat_dirsBelow_iff.mp h
  exact partsTake_concat_dirsBelow_iff.mpr ⟨q, s ++ slash :: r, by simp, hq⟩

/-- The one or the other matches bytes exactly if the first matches them or what stands before one
of their slashes. -/
theorem matchesBytes_below {g below : Glob} (h : Below g.parts below.parts) {t : Bytes} :
    g.matchesBytes t = true ∨ below.matchesBytes t = true ↔
      g.matchesBytes t = true ∨ ∃ q r, t = q ++ slash :: r ∧ g.matchesBytes q = true := by
  obtain ⟨ps⟩ := g
  obtain ⟨ps'⟩ := below
  simp only [matchesBytes_iff]
  simp only at h
  cases h with
  | appended =>
    have hne : ps ++ [Part.dirsBelow] ≠ [.dirsFirst] := by
      intro heq
      have hlast := congrArg List.getLast? heq
      rw [List.getLast?_concat] at hlast
      cases hlast
    rw [or_iff_right hne, partsTake_concat_dirsBelow_iff]
    constructor
    · rintro (h | ⟨q, r, rfl, h⟩)
      · exact .inl h
      · exact .inr ⟨q, r, rfl, .inr h⟩
    · rintro (h | ⟨q, r, rfl, h | h⟩)
      · exact .inl h
      · exact .inl (.inl h)
      · exact .inr ⟨q, r, rfl, h⟩
  | everything => simp
  | merged front =>
    rw [or_self]
    constructor
    · exact .inl
    · rintro (h | ⟨q, r, rfl, h⟩)
      · exact h
      · exact h.imp id (partsTake_dirsBelow_append r)

/-- **A glob and the glob of everything below it**, for a path: the one or the other matches it
exactly if the first matches the path or what stands before one of its slashes. -/
theorem matchesPath_below {g below : Glob} (h : Below g.parts below.parts) {path : String} :
    g.matchesPath path = true ∨ below.matchesPath path = true ↔
      g.matchesPath path = true ∨
        ∃ above rest, path = above ++ "/" ++ rest ∧ g.matchesPath above = true := by
  rw [matchesPath, matchesPath, matchesBytes_below h]
  refine or_congr_right ?_
  constructor
  · rintro ⟨q, r, htext, hq⟩
    obtain ⟨above, rest, rfl, rfl, rfl⟩ := Text.encode_eq_append_slash_iff.mp htext
    exact ⟨above, rest, rfl, hq⟩
  · rintro ⟨above, rest, hpath, hmatch⟩
    exact ⟨_, _, Text.encode_eq_append_slash_iff.mpr ⟨above, rest, hpath, rfl, rfl⟩, hmatch⟩

end LintSetup.Glob
