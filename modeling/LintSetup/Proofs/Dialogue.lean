import LintSetup.Dialogue
import Mathlib.Data.List.Forall2

/-!
# The ways a conversation can go

A dialogue is a tree, and each of its branches is a list of requests with answers and a result:
`d.Leads es a` says that with the answers in `es` the conversation asks `es` and ends with `a`.  A
run with a handler takes one of these branches (`leads_run`), so what holds of all branches holds
of all runs, whoever answers and whatever state they keep.

* `leads_bind_iff` --- a branch of a sequence is a branch of its first part followed by a branch of
  its second part; `leads_bind_except_iff` is the same for conversations that may fail, where the
  second part is left out after a failure.
* `exists_of_leads_through` --- a branch of a conversation whose requests are passed on.
* `Serves` --- requests that are answered by conversations which share a state;
  `leads_throughWith_iff` says that so is a branch of a conversation whose requests are passed
  on to them.
* `Always` --- all that is asked for is of one kind, on every branch.
* `Proceeds` --- the same for conversations that may fail, where a result means that the answers on
  the way were of one kind too.
-/

namespace LintSetup.Dialogue

variable {I J : Interface} {α β σ ε : Type}

/-- With the answers in a list of exchanges, a conversation asks what is in it and comes to a
result. -/
inductive Leads : Dialogue I α → List (Exchange I) → α → Prop
  | done (a : α) : Leads (done a) [] a
  | request {r : I.Request} {next : I.Response r → Dialogue I α} (answer : I.Response r)
    {es : List (Exchange I)} {a : α} (h : Leads (next answer) es a) :
    Leads (request r next) (⟨r, answer⟩ :: es) a

/-- A run takes one of the branches. -/
theorem leads_run (h : Handler I σ) (d : Dialogue I α) (s : σ) :
    d.Leads (d.transcript h s) (d.run h s).1 := by
  induction d generalizing s with
  | done a => exact .done a
  | request r next ih => exact .request _ (ih _ _)

theorem leads_pure_iff {a b : α} {es : List (Exchange I)} :
    (pure a : Dialogue I α).Leads es b ↔ es = [] ∧ b = a := by
  constructor
  · intro h
    cases h
    exact ⟨rfl, rfl⟩
  · rintro ⟨rfl, rfl⟩
    exact .done b

theorem leads_ask_iff {r : I.Request} {a : I.Response r} {es : List (Exchange I)} :
    (ask r).Leads es a ↔ es = [⟨r, a⟩] := by
  constructor
  · intro h
    cases h with
    | request answer h =>
      cases h
      rfl
  · rintro rfl
    exact .request a (.done a)

/-- A branch of a sequence is a branch of each of its parts, one after the other. -/
theorem leads_bind_iff {d : Dialogue I α} {f : α → Dialogue I β} {es : List (Exchange I)} {b : β} :
    (d >>= f).Leads es b ↔
      ∃ before a after, d.Leads before a ∧ (f a).Leads after b ∧ es = before ++ after := by
  induction d generalizing es with
  | done a =>
    constructor
    · exact fun h => ⟨[], a, es, .done a, h, rfl⟩
    · rintro ⟨before, _, after, hd, hf, rfl⟩
      cases hd
      exact hf
  | request r next ih =>
    constructor
    · intro h
      rw [bind_request] at h
      cases h with
      | request answer h =>
        obtain ⟨before, a, after, hd, hf, rfl⟩ := (ih answer).mp h
        exact ⟨_ :: before, a, after, .request answer hd, hf, rfl⟩
    · rintro ⟨before, a, after, hd, hf, rfl⟩
      cases hd with
      | request answer hd => exact .request answer ((ih answer).mpr ⟨_, a, after, hd, hf, rfl⟩)

/-- A branch of a sequence that may fail: its first part fails, or both parts are gone through. -/
theorem leads_bind_except_iff {x : ExceptT ε (Dialogue I) α} {f : α → ExceptT ε (Dialogue I) β}
    {es : List (Exchange I)} {r : Except ε β} :
    (x >>= f).run.Leads es r ↔
      (∃ e, x.run.Leads es (.error e) ∧ r = .error e) ∨
        ∃ before a after,
          x.run.Leads before (.ok a) ∧ (f a).run.Leads after r ∧ es = before ++ after := by
  rw [ExceptT.run_bind, leads_bind_iff]
  constructor
  · rintro ⟨before, a | a, after, hx, hf, rfl⟩
    · obtain ⟨rfl, rfl⟩ := leads_pure_iff.mp hf
      exact .inl ⟨a, by rwa [List.append_nil], rfl⟩
    · exact .inr ⟨before, a, after, hx, hf, rfl⟩
  · rintro (⟨e, hx, rfl⟩ | ⟨before, a, after, hx, hf, rfl⟩)
    · exact ⟨es, .error e, [], hx, leads_pure_iff.mpr ⟨rfl, rfl⟩, (List.append_nil es).symm⟩
    · exact ⟨before, .ok a, after, hx, hf, rfl⟩

/-- Two parts that come to results make a branch of their sequence. -/
theorem Leads.bind_ok {x : ExceptT ε (Dialogue I) α} {f : α → ExceptT ε (Dialogue I) β}
    {before after : List (Exchange I)} {a : α} {r : Except ε β}
    (hx : x.run.Leads before (.ok a)) (hf : (f a).run.Leads after r) :
    (x >>= f).run.Leads (before ++ after) r :=
  leads_bind_except_iff.mpr (.inr ⟨before, a, after, hx, hf, rfl⟩)

/-- A branch of a sequence that comes to a result goes through both parts. -/
theorem exists_of_leads_bind_ok {x : ExceptT ε (Dialogue I) α} {f : α → ExceptT ε (Dialogue I) β}
    {es : List (Exchange I)} {b : β} (h : (x >>= f).run.Leads es (.ok b)) :
    ∃ before a after,
      x.run.Leads before (.ok a) ∧ (f a).run.Leads after (.ok b) ∧ es = before ++ after := by
  obtain ⟨e, -, herror⟩ | hboth := leads_bind_except_iff.mp h
  · cases herror
  · exact hboth

theorem leads_pure_except_iff {a : α} {r : Except ε α} {es : List (Exchange I)} :
    (pure a : ExceptT ε (Dialogue I) α).run.Leads es r ↔ es = [] ∧ r = .ok a :=
  leads_pure_iff

/-- Where requests are passed on to other conversations, a branch is a branch of the first
conversation with one of theirs in place of each request. -/
theorem exists_of_leads_through {k : (r : I.Request) → Dialogue J (I.Response r)}
    {d : Dialogue I α} {es : List (Exchange J)} {a : α} (h : (d.through k).Leads es a) :
    ∃ asked pieces, d.Leads asked a ∧
      List.Forall₂ (fun e piece => (k e.asked).Leads piece e.answer) asked pieces ∧
      es = pieces.flatten := by
  induction d generalizing es with
  | done _ =>
    cases h
    exact ⟨[], [], .done a, .nil, rfl⟩
  | request r next ih =>
    obtain ⟨piece, answer, rest, hpiece, hrest, rfl⟩ := leads_bind_iff.mp h
    obtain ⟨asked, pieces, hd, hpieces, rfl⟩ := ih answer hrest
    exact ⟨⟨r, answer⟩ :: asked, piece :: pieces, .request answer hd, .cons hpiece hpieces, rfl⟩

/-- Where each request is passed on as one request, so is a branch. -/
theorem exists_of_leads_through_one {k : (r : I.Request) → Dialogue J (I.Response r)}
    {f : Exchange I → Exchange J} (hk : ∀ r es a, (k r).Leads es a → es = [f ⟨r, a⟩])
    {d : Dialogue I α} {es : List (Exchange J)} {a : α} (h : (d.through k).Leads es a) :
    ∃ asked, d.Leads asked a ∧ es = asked.map f := by
  obtain ⟨asked, pieces, hd, hpieces, rfl⟩ := exists_of_leads_through h
  refine ⟨asked, hd, ?_⟩
  clear hd h
  induction hpieces with
  | nil => rfl
  | cons hpiece _ ih => rw [List.flatten_cons, ih, hk _ _ _ hpiece, List.map_cons]; rfl

/-- A branch of a conversation is one of the same conversation when its requests are passed on. -/
theorem Leads.through_one {k : (r : I.Request) → Dialogue J (I.Response r)}
    {f : Exchange I → Exchange J} (hk : ∀ r a, (k r).Leads [f ⟨r, a⟩] a) {d : Dialogue I α}
    {es : List (Exchange I)} {a : α} (h : d.Leads es a) : (d.through k).Leads (es.map f) a := by
  induction h with
  | done a => exact .done a
  | request answer _ ih => exact leads_bind_iff.mpr ⟨_, answer, _, hk _ answer, ih, rfl⟩

/-! ## Conversations that ask for one kind of thing -/

/-- Whatever is asked for on a branch has a property. -/
def Always (P : I.Request → Prop) (d : Dialogue I α) : Prop :=
  ∀ es a, d.Leads es a → ∀ e ∈ es, P e.asked

variable {P : I.Request → Prop} {Q : J.Request → Prop}

theorem Always.of_transcript {d : Dialogue I α} (hd : d.Always P) (h : Handler I σ) (s : σ) :
    ∀ e ∈ d.transcript h s, P e.asked :=
  hd _ _ (leads_run h d s)

theorem Always.mono {P' : I.Request → Prop} {d : Dialogue I α} (hd : d.Always P)
    (hP : ∀ r, P r → P' r) : d.Always P' :=
  fun es a h e he => hP _ (hd es a h e he)

theorem always_pure (a : α) : (pure a : Dialogue I α).Always P := by
  intro es b h
  obtain ⟨rfl, -⟩ := leads_pure_iff.mp h
  simp

theorem always_ask {r : I.Request} (h : P r) : (ask r).Always P := by
  intro es a hl
  rw [leads_ask_iff.mp hl]
  simpa using h

theorem Always.bind {d : Dialogue I α} {f : α → Dialogue I β} (hd : d.Always P)
    (hf : ∀ a, (f a).Always P) : (d >>= f).Always P := by
  intro es b h e he
  obtain ⟨before, a, after, hbefore, hafter, rfl⟩ := leads_bind_iff.mp h
  rcases List.mem_append.mp he with he | he
  · exact hd _ _ hbefore e he
  · exact hf a _ _ hafter e he

/-- Passing requests on keeps to one kind of thing if every request is passed on that way. -/
theorem Always.through {k : (r : I.Request) → Dialogue J (I.Response r)} {d : Dialogue I α}
    (hd : d.Always P) (hk : ∀ r, P r → (k r).Always Q) : (d.through k).Always Q := by
  intro es a h
  obtain ⟨asked, pieces, hasked, hpieces, rfl⟩ := exists_of_leads_through h
  have hP := hd asked a hasked
  clear hasked h
  induction hpieces with
  | nil => simp
  | cons hpiece _ ih =>
    rw [List.forall_mem_cons] at hP
    rw [List.flatten_cons, List.forall_mem_append]
    exact ⟨hk _ hP.1 _ _ hpiece, ih hP.2⟩

/-- The same where the answers share a state. -/
theorem always_throughWith {k : (r : I.Request) → σ → Dialogue J (I.Response r × σ)}
    (hk : ∀ r s, (k r s).Always Q) (d : Dialogue I α) (s : σ) : (d.throughWith k s).Always Q := by
  induction d generalizing s with
  | done a => exact always_pure (a, s)
  | request r next ih => exact (hk r s).bind fun answer => ih answer.1 answer.2

/-! ## Conversations that answer others -/

/-- A request with its answer, and what was asked for on the way to it. -/
structure Step (I J : Interface) where
  exchange : Exchange I
  taken : List (Exchange J)

/-- Requests that are answered one after another, by conversations each of which goes on with the
state that the one before it has left. -/
inductive Serves (k : (r : I.Request) → σ → Dialogue J (I.Response r × σ)) :
    σ → List (Step I J) → σ → Prop
  | nil (s : σ) : Serves k s [] s
  | cons {r : I.Request} {answer : I.Response r} {taken : List (Exchange J)} {s s' s'' : σ}
    {steps : List (Step I J)} (h : (k r s).Leads taken (answer, s')) (hrest : Serves k s' steps s'') :
    Serves k s (⟨⟨r, answer⟩, taken⟩ :: steps) s''

/-- Where requests are passed on to conversations that share a state, a branch is a branch of the
first conversation, each of whose requests is answered with what the one before it has left. -/
theorem leads_throughWith_iff {k : (r : I.Request) → σ → Dialogue J (I.Response r × σ)}
    {d : Dialogue I α} {s s' : σ} {es : List (Exchange J)} {a : α} :
    (d.throughWith k s).Leads es (a, s') ↔
      ∃ steps, Serves k s steps s' ∧ d.Leads (steps.map Step.exchange) a ∧
        es = steps.flatMap Step.taken := by
  constructor
  · intro h
    induction d generalizing s es with
    | done _ =>
      cases h
      exact ⟨[], .nil _, .done a, rfl⟩
    | request r next ih =>
      obtain ⟨taken, ⟨answer, middle⟩, rest, htaken, hrest, rfl⟩ := leads_bind_iff.mp h
      obtain ⟨steps, hsteps, hd, rfl⟩ := ih answer hrest
      exact ⟨⟨⟨r, answer⟩, taken⟩ :: steps, .cons htaken hsteps, .request answer hd, rfl⟩
  · rintro ⟨steps, hsteps, hd, rfl⟩
    induction hsteps generalizing d with
    | nil s =>
      cases hd
      exact .done (a, s)
    | cons hstep _ ih =>
      cases hd with
      | request _ hd => exact leads_bind_iff.mpr ⟨_, _, _, hstep, ih hd, rfl⟩

/-! ## Conversations that end at a failure -/

/-- Whatever is asked has a property, and where the conversation comes to a result rather than to a
failure, so have the answers. -/
def Proceeds (P : I.Request → Prop) (Q : Exchange I → Prop) (x : ExceptT ε (Dialogue I) α) :
    Prop :=
  ∀ es r, x.run.Leads es r → (∀ e ∈ es, P e.asked) ∧ ∀ a, r = .ok a → ∀ e ∈ es, Q e

variable {S : Exchange I → Prop}

/-- What is asked for has every weaker property as well. -/
theorem Proceeds.mono {P' : I.Request → Prop} {x : ExceptT ε (Dialogue I) α} (hx : Proceeds P S x)
    (hP : ∀ r, P r → P' r) : Proceeds P' S x :=
  fun es r h => ⟨fun e he => hP _ ((hx es r h).1 e he), (hx es r h).2⟩

theorem proceeds_pure (a : α) : Proceeds P S (pure a : ExceptT ε (Dialogue I) α) := by
  intro es r h
  obtain ⟨rfl, -⟩ := leads_pure_except_iff.mp h
  simp

theorem proceeds_throw (e : ε) : Proceeds P S (throw e : ExceptT ε (Dialogue I) α) := by
  intro es r h
  obtain ⟨rfl, -⟩ := leads_pure_iff.mp h
  simp

theorem Proceeds.bind {x : ExceptT ε (Dialogue I) α} {f : α → ExceptT ε (Dialogue I) β}
    (hx : Proceeds P S x) (hf : ∀ a, Proceeds P S (f a)) : Proceeds P S (x >>= f) := by
  intro es r h
  obtain ⟨e, hfail, rfl⟩ | ⟨before, a, after, hbefore, hafter, rfl⟩ := leads_bind_except_iff.mp h
  · exact ⟨(hx _ _ hfail).1, fun _ h => by cases h⟩
  · obtain ⟨hask, hanswer⟩ := hx _ _ hbefore
    obtain ⟨hask', hanswer'⟩ := hf a _ _ hafter
    exact ⟨List.forall_mem_append.mpr ⟨hask, hask'⟩, fun b hb =>
      List.forall_mem_append.mpr ⟨hanswer a rfl, hanswer' b hb⟩⟩

end LintSetup.Dialogue
