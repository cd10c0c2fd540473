import LintSetup.Proofs.Inspection.Handles
import Mathlib.Data.List.Nodup

/-!
# Which handle is shown, and when each is given back

A handle that was given back names nothing any more, and a linter that is shown it fails.  So it does
not only matter how many handles are given back, but also where among the verifications it happens.

* `offer?` --- the handle that a verification leaves with the inspection: it did not fail, it is not
  fatal, and it came with one.
* `shown?` --- what a verification is shown: a handle, or none.
* `Hands` --- trials by what each does with a handle: a verification offers none; or it offers the
  first one, which is kept; or it offers a further one, which the next exchange gives back.
* `Custody` --- what becomes of each handle in the exchanges about a text.

The trials of every text are `Hands` (`hands_tryAll`), and what is said about them is read off by
induction on `Hands`.  The only fact that the linter has to supply is
that no two of its verifications came with the same handle.
-/

namespace LintSetup.Inspection

variable {σ : Type}

/-! ## Handles that are offered and shown -/

/-- The handle that came with an exchange, if it was a verification that neither failed nor was
fatal. -/
def offer? (e : Exchange Linter) : Option Handle :=
  (verification? e).bind fun v => if !v.isFatal then v.handle else none

/-- The handles that came with verifications that neither failed nor were fatal. -/
def offered (exchanges : List (Exchange Linter)) : List Handle := exchanges.filterMap offer?

/-- What an exchange shows to the linter, if it asks for a verification: a handle, or none. -/
def shown? : Exchange Linter → Option (Option Handle)
  | ⟨.verify _ handle _ _, _⟩ => some handle
  | _ => none

/-- The exchange that gives a handle back. -/
def giveBack (handle : Handle) : Exchange Linter := ⟨.release handle, ()⟩

@[simp] theorem offer?_giveBack (k : Handle) : offer? (giveBack k) = none := rfl

@[simp] theorem release?_giveBack (k : Handle) : release? (giveBack k) = some k := rfl

theorem offer?_verify_ok (text path : String) (kept : Option Handle) (config : Config)
    (v : Verification) :
    offer? ⟨.verify text kept config path, .ok v⟩ = if !v.isFatal then v.handle else none := rfl

/-- A verification gives nothing back. -/
theorem release?_of_shown? {e : Exchange Linter} {handle : Option Handle}
    (h : shown? e = some handle) : release? e = none := by
  obtain ⟨asked, answer⟩ := e
  cases asked with
  | verify => rfl
  | _ => nomatch h

/-- Only verifications offer a handle. -/
theorem exists_shown?_of_offer? {e : Exchange Linter} {k : Handle} (h : offer? e = some k) :
    ∃ handle, shown? e = some handle := by
  obtain ⟨asked, answer⟩ := e
  cases asked with
  | verify text handle config path => exact ⟨handle, rfl⟩
  | _ => nomatch h

@[simp] theorem offered_append (es fs : List (Exchange Linter)) :
    offered (es ++ fs) = offered es ++ offered fs :=
  List.filterMap_append

theorem offered_cons_of_none {e : Exchange Linter} (h : offer? e = none)
    (es : List (Exchange Linter)) : offered (e :: es) = offered es :=
  List.filterMap_cons_none h

theorem offered_cons_of_some {e : Exchange Linter} {k : Handle} (h : offer? e = some k)
    (es : List (Exchange Linter)) : offered (e :: es) = k :: offered es :=
  List.filterMap_cons_some h

theorem released_cons_of_none {e : Exchange Linter} (h : release? e = none)
    (es : List (Exchange Linter)) : released (e :: es) = released es :=
  List.filterMap_cons_none h

theorem released_cons_of_some {e : Exchange Linter} {k : Handle} (h : release? e = some k)
    (es : List (Exchange Linter)) : released (e :: es) = k :: released es :=
  List.filterMap_cons_some h

/-- What is given back once only is not given back again. -/
theorem release?_ne_of_mem {earlier later : List (Exchange Linter)} {e : Exchange Linter}
    {x : Handle} (hnodup : (released (earlier ++ e :: later)).Nodup) (he : release? e = some x) :
    ∀ e' ∈ later, release? e' ≠ some x := by
  intro e' hmem he'
  rw [released_append, released_cons_of_some he] at hnodup
  have hlater : x ∈ released later := List.mem_filterMap.mpr ⟨e', hmem, he'⟩
  exact (List.nodup_cons.mp (List.nodup_append.mp hnodup).2.1).1 hlater

/-- What is offered comes with the verifications that are not fatal. -/
theorem offered_eq (es : List (Exchange Linter)) :
    offered es = ((verifications es).filter (!·.isFatal)).filterMap (·.handle) := by
  rw [List.filterMap_filter, verifications, List.filterMap_filterMap]
  rfl

theorem offered_sublist_returned (es : List (Exchange Linter)) :
    (offered es).Sublist (returned es) :=
  offered_eq es ▸ List.filter_sublist.filterMap _

/-! ## Trials by their handles -/

/-- The exchanges of trials, with the handle that is kept before them and the one kept after. -/
inductive Hands : Option Handle → List (Exchange Linter) → Option Handle → Prop
  /-- There is nothing more to try. -/
  | done (kept : Option Handle) : Hands kept [] kept
  /-- A verification that offers no handle. -/
  | silent {kept last : Option Handle} {e : Exchange Linter} {es : List (Exchange Linter)}
      (shown : shown? e = some kept) (offer : offer? e = none) (rest : Hands kept es last) :
      Hands kept (e :: es) last
  /-- The first handle is kept. -/
  | first {k : Handle} {last : Option Handle} {e : Exchange Linter} {es : List (Exchange Linter)}
      (shown : shown? e = some none) (offer : offer? e = some k) (rest : Hands (some k) es last) :
      Hands none (e :: es) last
  /-- Any further one is given back. -/
  | spare {k x : Handle} {last : Option Handle} {e : Exchange Linter}
      {es : List (Exchange Linter)} (shown : shown? e = some (some k)) (offer : offer? e = some x)
      (rest : Hands (some k) es last) : Hands (some k) (e :: giveBack x :: es) last

namespace Hands

variable {kept last : Option Handle} {es : List (Exchange Linter)}

/-- A verification, and what keeping its handle asks for. -/
theorem keep {e : Exchange Linter} {back : Option Handle} (shown : shown? e = some kept)
    (offer : offer? e = back) (h : Handler Linter σ) (s : σ)
    (rest : Hands (kept.or back) es last) :
    Hands kept (e :: ((keepHandle kept back).transcript h s ++ es)) last := by
  cases kept with
  | none =>
    cases back with
    | none => exact .silent shown offer rest
    | some k => exact .first shown offer rest
  | some k =>
    cases back with
    | none => exact .silent shown offer rest
    | some x => exact .spare shown offer rest

/-- The first handle that is offered is kept to the end. -/
theorem last_eq (h : Hands kept es last) : last = kept.or (offered es).head? := by
  induction h with
  | done kept => exact (Option.or_none ..).symm
  | silent _ offer _ ih => rw [ih, offered_cons_of_none offer]
  | first _ offer _ ih =>
    rw [ih, offered_cons_of_some offer]
    rfl
  | spare _ offer _ ih => exact ih

/-- What was kept and what was offered since is what is kept now and what was given back since. -/
theorem append_offered_eq (h : Hands kept es last) :
    kept.toList ++ offered es = last.toList ++ released es := by
  induction h with
  | done kept => rfl
  | silent shown offer _ ih =>
    rw [offered_cons_of_none offer, released_cons_of_none (release?_of_shown? shown)]
    exact ih
  | first shown offer _ ih =>
    rw [offered_cons_of_some offer, released_cons_of_none (release?_of_shown? shown)]
    exact ih
  | spare shown offer rest ih =>
    obtain rfl := rest.last_eq
    rw [offered_cons_of_some offer, released_cons_of_none (release?_of_shown? shown),
      offered_cons_of_none (offer?_giveBack _), released_cons_of_some (release?_giveBack _)]
    have hsame : offered _ = released _ := List.append_cancel_left ih
    rw [hsame]
    rfl

/-- Trials fall into those before a verification and those from it on. -/
theorem split (h : Hands kept es last) {earlier later : List (Exchange Linter)}
    {e : Exchange Linter} {handle : Option Handle} (hes : es = earlier ++ e :: later)
    (he : shown? e = some handle) :
    ∃ mid, Hands kept earlier mid ∧ Hands mid (e :: later) last := by
  induction h generalizing earlier with
  | done kept => exact absurd hes (List.append_ne_nil_of_right_ne_nil _ (List.cons_ne_nil _ _)).symm
  | silent shown offer rest ih =>
    rcases earlier with _ | ⟨e', earlier⟩
    · obtain ⟨rfl, rfl⟩ := List.cons.inj hes
      exact ⟨_, .done _, .silent shown offer rest⟩
    · obtain ⟨rfl, hrest⟩ := List.cons.inj hes
      obtain ⟨mid, hbefore, hafter⟩ := ih hrest
      exact ⟨mid, .silent shown offer hbefore, hafter⟩
  | first shown offer rest ih =>
    rcases earlier with _ | ⟨e', earlier⟩
    · obtain ⟨rfl, rfl⟩ := List.cons.inj hes
      exact ⟨_, .done _, .first shown offer rest⟩
    · obtain ⟨rfl, hrest⟩ := List.cons.inj hes
      obtain ⟨mid, hbefore, hafter⟩ := ih hrest
      exact ⟨mid, .first shown offer hbefore, hafter⟩
  | spare shown offer rest ih =>
    rcases earlier with _ | ⟨e', _ | ⟨e'', earlier⟩⟩
    · obtain ⟨rfl, rfl⟩ := List.cons.inj hes
      exact ⟨_, .done _, .spare shown offer rest⟩
    · -- what is given back is no verification
      obtain ⟨rfl, -⟩ := List.cons.inj (List.cons.inj hes).2
      nomatch he
    · obtain ⟨rfl, hback⟩ := List.cons.inj hes
      obtain ⟨rfl, hrest⟩ := List.cons.inj hback
      obtain ⟨mid, hbefore, hafter⟩ := ih hrest
      exact ⟨mid, .spare shown offer hbefore, hafter⟩

/-- A verification is shown the handle that is kept. -/
theorem shown_eq {e : Exchange Linter} {handle : Option Handle} (h : Hands kept (e :: es) last)
    (he : shown? e = some handle) : handle = kept := by
  cases h with
  | silent shown => exact Option.some.inj (he.symm.trans shown)
  | first shown => exact Option.some.inj (he.symm.trans shown)
  | spare shown => exact Option.some.inj (he.symm.trans shown)

/-- A handle that is offered while one is kept is given back next. -/
theorem head?_eq_giveBack {e : Exchange Linter} {k x : Handle} (h : Hands (some k) (e :: es) last)
    (he : offer? e = some x) : es.head? = some (giveBack x) := by
  cases h with
  | silent _ offer => nomatch he.symm.trans offer
  | spare _ offer =>
    obtain rfl := Option.some.inj (he.symm.trans offer)
    rfl

end Hands

/-- The trials of a text. -/
theorem hands_tryAll (h : Handler Linter σ) (base : Config) (text path : String)
    (cs : List (Nat × Candidate)) (t : Trials) (s : σ) :
    Hands t.handle ((tryAll base text path cs t).transcript h s)
      ((tryAll base text path cs t).run h s).1.handle := by
  refine tryAll_induction h base text path (P := fun _ t es t' => Hands t.handle es t'.handle)
    ?_ ?_ ?_ ?_ cs t s
  · exact fun t => .done t.handle
  · exact fun m rest t f es t' ih => .silent rfl rfl ih
  · intro m rest t v fatal
    refine .silent rfl ?_ (.done t.handle)
    rw [offer?_verify_ok, fatal]
    rfl
  · intro m rest t v s es t' sound ih
    refine .keep rfl ?_ h s ih
    rw [offer?_verify_ok, sound]
    rfl

/-- After them the kept handle is given back. -/
theorem transcript_releaseKept (h : Handler Linter σ) (kept : Option Handle) (s : σ) :
    (releaseKept kept).transcript h s = kept.toList.map giveBack := by
  cases kept <;> rfl

/-! ## Custody -/

/-- What becomes of the handles in the exchanges about a text. -/
structure Custody (exchanges : List (Exchange Linter)) : Prop where
  /-- A verification is shown the first handle that was offered before it. -/
  shown : ∀ earlier e later handle, exchanges = earlier ++ e :: later → shown? e = some handle →
    handle = (offered earlier).head?
  /-- This handle is given back once, by the last exchange of all. -/
  kept : ∀ k, (offered exchanges).head? = some k →
    exchanges.getLast?.bind release? = some k ∧ (released exchanges).count k = 1
  /-- Any other that is offered is given back once, by the next exchange, and never shown. -/
  spare : ∀ earlier e later x, exchanges = earlier ++ e :: later → offer? e = some x →
    offered earlier ≠ [] → later.head?.bind release? = some x ∧
      (released exchanges).count x = 1 ∧ ∀ e ∈ exchanges, shown? e ≠ some (some x)
  /-- Nothing is given back that did not come with a verification. -/
  returned : released exchanges ⊆ returned exchanges
  /-- A handle that was given back is neither shown nor given back again. -/
  ended : ∀ earlier e later x, exchanges = earlier ++ e :: later → release? e = some x →
    ∀ e ∈ later, shown? e ≠ some (some x) ∧ release? e ≠ some x

/-- An item of two lists put together that is not in the second divides the first. -/
theorem exists_of_append_eq_append_cons {α : Type} {as bs cs ds : List α} {a : α}
    (h : as ++ bs = cs ++ a :: ds) (ha : a ∉ bs) :
    ∃ rest, as = cs ++ a :: rest ∧ ds = rest ++ bs := by
  obtain ⟨mid, rfl, hmid⟩ | ⟨mid, rfl, hmid⟩ := List.append_eq_append_iff.mp h
  · exact absurd (hmid ▸ List.mem_append_right mid List.mem_cons_self) ha
  · rcases mid with _ | ⟨b, mid⟩
    · have hbs : bs = a :: ds := hmid.symm
      exact absurd (hbs ▸ List.mem_cons_self) ha
    · obtain ⟨rfl, rfl⟩ := List.cons.inj hmid
      exact ⟨mid, rfl, rfl⟩

/-- Trials, after which the kept handle is given back. -/
def closed (trials : List (Exchange Linter)) (last : Option Handle) : List (Exchange Linter) :=
  trials ++ last.toList.map giveBack

/-- What is given back at the end is no verification. -/
theorem exists_of_closed_eq {trials earlier later : List (Exchange Linter)} {last : Option Handle}
    {e : Exchange Linter} {handle : Option Handle} (h : closed trials last = earlier ++ e :: later)
    (he : shown? e = some handle) :
    ∃ rest, trials = earlier ++ e :: rest ∧ later = closed rest last := by
  refine exists_of_append_eq_append_cons h fun hmem => ?_
  obtain ⟨k, -, rfl⟩ := List.mem_map.mp hmem
  nomatch he

theorem offered_closed (trials : List (Exchange Linter)) (last : Option Handle) :
    offered (closed trials last) = offered trials := by
  rw [closed, offered_append]
  cases last <;> exact List.append_nil _

theorem released_closed (trials : List (Exchange Linter)) (last : Option Handle) :
    released (closed trials last) = released trials ++ last.toList := by
  rw [closed, released_append]
  cases last <;> rfl

namespace Hands

variable {trials : List (Exchange Linter)} {last : Option Handle}

/-- What is offered is given back. -/
theorem offered_perm_released (h : Hands none trials last) :
    (offered (closed trials last)).Perm (released (closed trials last)) := by
  have hoffered : offered trials = last.toList ++ released trials := h.append_offered_eq
  rw [offered_closed, released_closed, hoffered]
  exact List.perm_append_comm

theorem head?_offered (h : Hands none trials last) : (offered (closed trials last)).head? = last := by
  rw [offered_closed, h.last_eq]
  rfl

/-- A verification comes while the first handle that was offered is kept. -/
theorem exists_of_closed (h : Hands none trials last) {earlier later : List (Exchange Linter)}
    {e : Exchange Linter} {handle : Option Handle}
    (hclosed : closed trials last = earlier ++ e :: later) (he : shown? e = some handle) :
    ∃ rest, later = closed rest last ∧ Hands (offered earlier).head? (e :: rest) last := by
  obtain ⟨rest, htrials, hlater⟩ := exists_of_closed_eq hclosed he
  obtain ⟨mid, hbefore, hafter⟩ := h.split htrials he
  obtain rfl : mid = (offered earlier).head? := hbefore.last_eq
  exact ⟨rest, hlater, hafter⟩

/-- A handle that is shown is the one that is given back at the end. -/
theorem eq_of_shown? (h : Hands none trials last) {e : Exchange Linter} {x : Handle}
    (hmem : e ∈ closed trials last) (he : shown? e = some (some x)) : last = some x := by
  obtain ⟨earlier, later, hclosed⟩ := List.append_of_mem hmem
  obtain ⟨rest, -, hafter⟩ := h.exists_of_closed hclosed he
  rw [← h.head?_offered, hclosed, offered_append, List.head?_append, ← hafter.shown_eq he]
  rfl

section Distinct

variable (h : Hands none trials last) (hnodup : (returned (closed trials last)).Nodup)

include h hnodup

theorem nodup_offered_and_released :
    (offered (closed trials last)).Nodup ∧ (released (closed trials last)).Nodup := by
  have hoffered : (offered (closed trials last)).Nodup :=
    hnodup.sublist (offered_sublist_returned _)
  exact ⟨hoffered, h.offered_perm_released.nodup_iff.mp hoffered⟩

/-- What is offered is given back once. -/
theorem count_released_eq_one {x : Handle} (hx : x ∈ offered (closed trials last)) :
    (released (closed trials last)).count x = 1 :=
  List.count_eq_one_of_mem (h.nodup_offered_and_released hnodup).2
    (h.offered_perm_released.mem_iff.mp hx)

/-- A handle that is offered while another is kept is given back next, and never shown. -/
theorem spared {earlier later : List (Exchange Linter)} {e : Exchange Linter} {x : Handle}
    (hclosed : closed trials last = earlier ++ e :: later) (hx : offer? e = some x)
    (hearlier : offered earlier ≠ []) :
    later.head?.bind release? = some x ∧ (released (closed trials last)).count x = 1 ∧
      ∀ e ∈ closed trials last, shown? e ≠ some (some x) := by
  obtain ⟨handle, he⟩ := exists_shown?_of_offer? hx
  obtain ⟨rest, rfl, hafter⟩ := h.exists_of_closed hclosed he
  obtain ⟨k, more, hmore⟩ := List.exists_cons_of_ne_nil hearlier
  have hlist : offered (closed trials last) = k :: more ++ x :: offered (closed rest last) := by
    rw [hclosed, offered_append, offered_cons_of_some hx, hmore]
  have hkx : k ≠ x := by
    have hdistinct := (h.nodup_offered_and_released hnodup).1
    rw [hlist] at hdistinct
    exact (List.nodup_append.mp hdistinct).2.2 k List.mem_cons_self x List.mem_cons_self
  refine ⟨?_, h.count_released_eq_one hnodup ?_, fun e' hmem he' => hkx ?_⟩
  · rw [hmore] at hafter
    have hnext : rest.head? = some (giveBack x) := hafter.head?_eq_giveBack hx
    rw [closed, List.head?_append, hnext]
    rfl
  · rw [hlist]
    exact List.mem_append_right _ List.mem_cons_self
  · have hfirst := h.eq_of_shown? hmem he'
    rw [← h.head?_offered, hlist] at hfirst
    exact Option.some.inj hfirst

/-- A handle that was given back is not shown: it would be given back once more at the end. -/
theorem shown?_ne_of_mem {earlier later : List (Exchange Linter)} {e : Exchange Linter}
    {x : Handle} (hclosed : closed trials last = earlier ++ e :: later)
    (he : release? e = some x) : ∀ e' ∈ later, shown? e' ≠ some (some x) := by
  intro e' hmem he'
  have hlast : last = some x :=
    h.eq_of_shown? (hclosed ▸ List.mem_append_right _ (List.mem_cons_of_mem e hmem)) he'
  obtain ⟨before, after, rfl⟩ := List.append_of_mem hmem
  have hsplit : closed trials last = (earlier ++ e :: before) ++ e' :: after := by
    rw [hclosed, List.append_assoc, List.cons_append]
  obtain ⟨rest, rfl, -⟩ := h.exists_of_closed hsplit he'
  have hback : giveBack x ∈ closed rest last := by
    rw [hlast, closed]
    exact List.mem_append_right _ List.mem_cons_self
  have hdistinct := (h.nodup_offered_and_released hnodup).2
  rw [hclosed] at hdistinct
  exact release?_ne_of_mem hdistinct he (giveBack x)
    (List.mem_append_right _ (List.mem_cons_of_mem e' hback)) rfl

/-- What becomes of the handles, when no two verifications came with the same one. -/
theorem custody : Custody (closed trials last) where
  shown := by
    intro earlier e later handle hclosed he
    obtain ⟨rest, -, hafter⟩ := h.exists_of_closed hclosed he
    exact hafter.shown_eq he
  kept := by
    intro k hk
    refine ⟨?_, h.count_released_eq_one hnodup (List.mem_of_head? hk)⟩
    have hlast : last = some k := h.head?_offered.symm.trans hk
    rw [hlast, closed, Option.toList_some, List.map_singleton, List.getLast?_concat]
    rfl
  spare := fun _ _ _ _ hclosed hx hearlier => h.spared hnodup hclosed hx hearlier
  returned := fun x hx =>
    (offered_sublist_returned _).subset (h.offered_perm_released.mem_iff.mpr hx)
  ended := by
    intro earlier e later x hclosed he e' hmem
    have hdistinct := (h.nodup_offered_and_released hnodup).2
    rw [hclosed] at hdistinct
    exact ⟨h.shown?_ne_of_mem hnodup hclosed he e' hmem,
      release?_ne_of_mem hdistinct he e' hmem⟩

end Distinct

end Hands

/-- A text is inspected by trials, after which the kept handle is given back. -/
theorem exists_hands_inspectText (h : Handler Linter σ) (base : Config) (text path : String)
    (pool : Pool) (s : σ) :
    ∃ trials last, Hands none trials last ∧
      (inspectText base text path pool).transcript h s = closed trials last := by
  refine ⟨_, _, hands_tryAll h base text path pool.live {} s, ?_⟩
  rw [transcript_inspectText, transcript_releaseKept]
  rfl

/-- **Custody.**  For every linter, every configuration and text, and every pool: if no two
verifications of the text came with the same handle, then the first handle that is offered is shown
from then on and given back at the very end, any other is given back at once and never shown, and no
handle is used once it was given back. -/
theorem custody_inspectText (h : Handler Linter σ) (s : σ) (base : Config) (text path : String)
    (pool : Pool)
    (hnodup : (returned ((inspectText base text path pool).transcript h s)).Nodup) :
    Custody ((inspectText base text path pool).transcript h s) := by
  obtain ⟨trials, last, htrials, hclosed⟩ := exists_hands_inspectText h base text path pool s
  rw [hclosed] at hnodup ⊢
  exact htrials.custody hnodup

/-- A linter that numbers its verifications and hands the numbers out as handles.  The first
verification fails, and the fourth one is fatal. -/
def numberingLinter : Handler Linter Nat
  | .rules, n => (.ok [], n)
  | .effectiveConfig base, n => (.ok base, n)
  | .listFiles _, n => (.ok [], n)
  | .read _, n => (⟨0, .ok ""⟩, n)
  | .verify .., 0 => (.error (.of (.said "busy")), 1)
  | .verify .., n => (.ok ⟨[{ fatal := n == 3 }], some n⟩, n + 1)
  | .release _, n | .started _, n | .ticked, n | .finished, n | .warn _, n => ((), n)

/-- The second verification offers the handle that is kept, and the third one a spare one; that of
the fatal verification is not looked at. -/
theorem custody_inspectText_numberingLinter :
    let exchanges := (inspectText .empty "let a" "a.js" (Pool.ofList [⟨"semi", .str "error"⟩,
      ⟨"semi", .str "warn"⟩, ⟨"eqeqeq", .str "error"⟩, ⟨"eqeqeq", .str "warn"⟩])).transcript
        numberingLinter 0
    (returned exchanges).Nodup ∧ Custody exchanges ∧ offered exchanges = [1, 2] ∧
      exchanges.filterMap shown? = [none, none, some 1, some 1] ∧ released exchanges = [2, 1] := by
  intro exchanges
  have hnodup : (returned exchanges).Nodup := by decide
  exact ⟨hnodup, custody_inspectText numberingLinter 0 _ _ _ _ hnodup, by decide, by decide,
    by decide⟩

end LintSetup.Inspection
