import LintSetup.Proofs.Inspection.Trial
import Mathlib.Data.List.Perm.Basic

/-!
# Where the handles of a text go

A linter may hand out a handle with any verification, and a handle that is never given back pins a
parsed text.  What becomes of the handles is read off the transcript of an inspection: the handles
that came with verifications (`returned`), the handles given back (`released`), and the handles that
came with a fatal verification (`lost`).

## The balance

Through the trials of a text one balance holds (`returned_tryAll_perm`): the handle kept before and
the handles returned since are the handles given back since, those lost, and the handle kept now.
A trial that fails or returns no handle leaves it alone; the first handle is kept; a further one is
given back at once; and a fatal verification ends the trials before its handle is looked at.

So an inspection gives back what it was given exactly when no fatal verification came with a handle
(`returned_inspectText_perm`).
-/

namespace LintSetup.Inspection

open scoped List

variable {σ : Type}

/-! ## Handles in a transcript -/

/-- The verification that an exchange brought, if it was one and did not fail. -/
def verification? : Exchange Linter → Option Verification
  | ⟨.verify .., .ok v⟩ => some v
  | _ => none

/-- The handle that an exchange gave back. -/
def release? : Exchange Linter → Option Handle
  | ⟨.release handle, _⟩ => some handle
  | _ => none

/-- The verifications of a transcript that did not fail. -/
def verifications (exchanges : List (Exchange Linter)) : List Verification :=
  exchanges.filterMap verification?

/-- The handles that came with verifications. -/
def returned (exchanges : List (Exchange Linter)) : List Handle :=
  (verifications exchanges).filterMap (·.handle)

/-- The handles that were given back. -/
def released (exchanges : List (Exchange Linter)) : List Handle :=
  exchanges.filterMap release?

/-- The handles that came with fatal verifications. -/
def lost (exchanges : List (Exchange Linter)) : List Handle :=
  ((verifications exchanges).filter (·.isFatal)).filterMap (·.handle)

@[simp] theorem verifications_nil : verifications [] = [] := rfl

@[simp] theorem verifications_append (es fs : List (Exchange Linter)) :
    verifications (es ++ fs) = verifications es ++ verifications fs :=
  List.filterMap_append

/-- Nothing is lost exactly when no fatal verification came with a handle. -/
theorem lost_eq_nil_iff (es : List (Exchange Linter)) :
    lost es = [] ↔ ∀ v ∈ verifications es, v.isFatal = true → v.handle = none := by
  simp [lost, List.filterMap_eq_nil_iff]

@[simp] theorem returned_append (es fs : List (Exchange Linter)) :
    returned (es ++ fs) = returned es ++ returned fs := by
  simp [returned]

@[simp] theorem released_append (es fs : List (Exchange Linter)) :
    released (es ++ fs) = released es ++ released fs :=
  List.filterMap_append

@[simp] theorem lost_append (es fs : List (Exchange Linter)) :
    lost (es ++ fs) = lost es ++ lost fs := by
  simp [lost]

/-- Where nothing was verified, no handle came back. -/
theorem returned_eq_nil {es : List (Exchange Linter)} (h : verifications es = []) :
    returned es = [] := by
  rw [returned, h, List.filterMap_nil]

/-- Where nothing was verified, no handle was lost. -/
theorem lost_eq_nil {es : List (Exchange Linter)} (h : verifications es = []) :
    lost es = [] := by
  rw [lost, h, List.filter_nil, List.filterMap_nil]

section Verify

variable (text path : String) (kept : Option Handle) (config : Config) (es : List (Exchange Linter))

@[simp] theorem released_verify (a : Except Failure Verification) :
    released (⟨.verify text kept config path, a⟩ :: es) = released es := rfl

/-- A verification that did not fail adds its handle to the ones that came back. -/
theorem returned_verify_ok (v : Verification) :
    returned (⟨.verify text kept config path, .ok v⟩ :: es) = v.handle.toList ++ returned es := by
  have hcons : verifications (⟨.verify text kept config path, .ok v⟩ :: es) =
      v :: verifications es := rfl
  rw [returned, hcons, List.filterMap_cons, returned]
  cases v.handle <;> rfl

/-- A verification that did not fail loses its handle if it is fatal. -/
theorem lost_verify_ok (v : Verification) :
    lost (⟨.verify text kept config path, .ok v⟩ :: es) =
      (if v.isFatal then v.handle.toList else []) ++ lost es := by
  have hcons : verifications (⟨.verify text kept config path, .ok v⟩ :: es) =
      v :: verifications es := rfl
  rw [lost, hcons, List.filter_cons, lost]
  cases v.isFatal with
  | false => rfl
  | true => cases hv : v.handle <;> simp [hv]

end Verify

/-! ## The balance of the trials -/

/-- Keeping a handle verifies nothing. -/
theorem verifications_keepHandle (h : Handler Linter σ) (kept back : Option Handle) (s : σ) :
    verifications ((keepHandle kept back).transcript h s) = [] := by
  rcases kept with _ | k
  · rfl
  · rcases back with _ | b <;> rfl

/-- Of a kept handle and a new one, one is kept and the other given back. -/
theorem released_keepHandle (h : Handler Linter σ) (kept back : Option Handle) (s : σ) :
    (kept.toList ++ back.toList).Perm
      (released ((keepHandle kept back).transcript h s) ++ (kept.or back).toList) := by
  rcases kept with _ | k
  · exact List.Perm.refl _
  · rcases back with _ | b
    · exact List.Perm.refl _
    · exact List.Perm.swap b k []

/-- **The balance.**  What was kept and what came back since is what was given back since, what was
lost, and what is kept now. -/
theorem returned_tryAll_perm (h : Handler Linter σ) (base : Config) (text path : String)
    (cs : List (Nat × Candidate)) (t : Trials) (s : σ) :
    (t.handle.toList ++ returned ((tryAll base text path cs t).transcript h s)).Perm
      (released ((tryAll base text path cs t).transcript h s) ++
        (lost ((tryAll base text path cs t).transcript h s) ++
          ((tryAll base text path cs t).run h s).1.handle.toList)) := by
  refine tryAll_induction h base text path (P := fun _ t es t' =>
    (t.handle.toList ++ returned es).Perm (released es ++ (lost es ++ t'.handle.toList)))
    ?_ ?_ ?_ ?_ cs t s
  · intro t
    simp [returned, released, lost]
  · exact fun m rest t f es t' ih => ih
  · intro m rest t v fatal
    rw [returned_verify_ok, lost_verify_ok, fatal, if_pos rfl]
    change (t.handle.toList ++ (v.handle.toList ++ [])).Perm
      ([] ++ ((v.handle.toList ++ []) ++ t.handle.toList))
    rw [List.append_nil, List.nil_append]
    exact List.perm_append_comm
  · intro m rest t v s later t' sound ih
    have hkeep := released_keepHandle h t.handle v.handle s
    have hnone := verifications_keepHandle h t.handle v.handle s
    generalize (keepHandle t.handle v.handle).transcript h s = keeping at hkeep hnone ⊢
    rw [returned_verify_ok, lost_verify_ok, released_verify, sound, if_neg Bool.false_ne_true,
      returned_append, released_append, lost_append, returned_eq_nil hnone, lost_eq_nil hnone,
      List.nil_append, List.nil_append, List.nil_append, List.append_assoc (released keeping)]
    calc t.handle.toList ++ (v.handle.toList ++ returned later)
      _ = t.handle.toList ++ v.handle.toList ++ returned later :=
        (List.append_assoc ..).symm
      _ ~ released keeping ++ (t.handle.or v.handle).toList ++ returned later :=
        hkeep.append_right _
      _ = released keeping ++ ((t.note m v).handle.toList ++ returned later) :=
        List.append_assoc ..
      _ ~ released keeping ++ (released later ++ (lost later ++ t'.handle.toList)) :=
        ih.append_left _

/-! ## The balance of a text -/

/-- Nothing is verified when the kept handle is given back. -/
theorem verifications_releaseKept (h : Handler Linter σ) (kept : Option Handle) (s : σ) :
    verifications ((releaseKept kept).transcript h s) = [] := by
  rcases kept with _ | k <;> rfl

/-- The kept handle is given back. -/
theorem released_releaseKept (h : Handler Linter σ) (kept : Option Handle) (s : σ) :
    released ((releaseKept kept).transcript h s) = kept.toList := by
  rcases kept with _ | k <;> rfl

/-- **What an inspection of a text gives back.**  Counted with repetitions, the handles that came
with verifications are those given back and those lost with a fatal verification; so everything is
given back exactly when no fatal verification came with a handle. -/
theorem returned_inspectText_perm (h : Handler Linter σ) (s : σ) (base : Config)
    (text path : String) (pool : Pool) :
    (returned ((inspectText base text path pool).transcript h s)).Perm
        (released ((inspectText base text path pool).transcript h s) ++
          lost ((inspectText base text path pool).transcript h s)) ∧
      ((returned ((inspectText base text path pool).transcript h s)).Perm
          (released ((inspectText base text path pool).transcript h s)) ↔
        ∀ v ∈ verifications ((inspectText base text path pool).transcript h s),
          v.isFatal = true → v.handle = none) := by
  have hbalance : (returned ((inspectText base text path pool).transcript h s)).Perm
      (released ((inspectText base text path pool).transcript h s) ++
        lost ((inspectText base text path pool).transcript h s)) := by
    have htrials := returned_tryAll_perm h base text path pool.live {} s
    rw [transcript_inspectText]
    generalize (tryAll base text path pool.live {}).transcript h s = trials at htrials ⊢
    generalize (tryAll base text path pool.live {}).run h s = last at htrials ⊢
    have hnone := verifications_releaseKept h last.1.handle last.2
    rw [returned_append, released_append, lost_append, returned_eq_nil hnone, lost_eq_nil hnone,
      released_releaseKept, List.append_nil, List.append_nil]
    calc returned trials
      _ ~ released trials ++ (lost trials ++ last.1.handle.toList) := htrials
      _ ~ released trials ++ (last.1.handle.toList ++ lost trials) :=
        List.perm_append_comm.append_left _
      _ = released trials ++ last.1.handle.toList ++ lost trials :=
        (List.append_assoc ..).symm
  refine ⟨hbalance, ?_⟩
  rw [← lost_eq_nil_iff]
  constructor
  · intro hperm
    have hlen := (hperm.symm.trans hbalance).length_eq
    rw [List.length_append] at hlen
    exact List.length_eq_zero_iff.mp (by omega)
  · intro hlost
    rwa [hlost, List.append_nil] at hbalance

/-- A linter to which every text is broken, and which hands out a handle with that verdict. -/
def brokenWithHandle : Handler Linter Unit
  | .rules, s => (.ok [], s)
  | .effectiveConfig base, s => (.ok base, s)
  | .listFiles _, s => (.ok [], s)
  | .read _, s => (⟨0, .ok ""⟩, s)
  | .verify .., s => (.ok ⟨[{ fatal := true }], some 7⟩, s)
  | .release _, s | .started _, s | .ticked, s | .finished, s | .warn _, s => ((), s)

/-- The handle that comes with a fatal verification is not given back. -/
theorem not_returned_perm_released_brokenWithHandle :
    ¬ (returned ((inspectText .empty "let a" "a.js"
        (Pool.ofList [⟨"semi", .str "error"⟩])).transcript brokenWithHandle ())).Perm
      (released ((inspectText .empty "let a" "a.js"
        (Pool.ofList [⟨"semi", .str "error"⟩])).transcript brokenWithHandle ())) := by
  decide

end LintSetup.Inspection
