/-!
# Conversations with the outside

Whatever the program does outside itself --- asking the user, running a linter, reading a file ---
is a request that is answered.  A `Dialogue` is such a conversation as a value: it has ended with a
result, or it is a request together with what happens after each answer.  Nothing is done by a
dialogue itself, so every statement about what the program asks for, and in which order, is a
statement about these trees.

* `Interface` --- the requests of one kind of conversation, and the type of the answer to each;
* `Dialogue.bind` --- one conversation after another; dialogues form a monad;
* `Dialogue.run` --- the result of a dialogue when a handler with a state answers;
* `Dialogue.transcript` --- the requests and answers of such a run, in order;
* `Dialogue.runIn` --- a run in any monad;
* `Dialogue.through` --- a dialogue in which every request is answered by another dialogue;
* `Dialogue.throughWith` --- the same when those other dialogues share a state.
-/

namespace LintSetup

/-- Requests, and the type of the answer to each. -/
structure Interface where
  Request : Type
  Response : Request → Type

/-- A conversation over an interface that ends with a result. -/
inductive Dialogue (I : Interface) (α : Type) where
  | done (result : α)
  | request (r : I.Request) (next : I.Response r → Dialogue I α)

/-- Something that answers every request and has a state. -/
abbrev Handler (I : Interface) (σ : Type) := (r : I.Request) → σ → I.Response r × σ

/-- A request with its answer. -/
structure Exchange (I : Interface) where
  asked : I.Request
  answer : I.Response asked

namespace Dialogue

variable {I J : Interface} {α β γ σ : Type}

/-- The conversation that is one request. -/
def ask (r : I.Request) : Dialogue I (I.Response r) := request r done

/-- One conversation after another. -/
def bind : Dialogue I α → (α → Dialogue I β) → Dialogue I β
  | done a, f => f a
  | request r next, f => request r fun answer => (next answer).bind f

instance : Monad (Dialogue I) where
  pure := done
  bind := bind

@[simp] theorem pure_eq (a : α) : (pure a : Dialogue I α) = done a := rfl

@[simp] theorem bind_done (a : α) (f : α → Dialogue I β) : (done a >>= f) = f a := rfl

@[simp] theorem bind_request (r : I.Request) (next : I.Response r → Dialogue I α)
    (f : α → Dialogue I β) :
    (request r next >>= f) = request r fun answer => next answer >>= f := rfl

/-- Going on with the result as it is changes nothing. -/
theorem bind_done_right (d : Dialogue I α) : d.bind done = d := by
  induction d with
  | done a => rfl
  | request r next ih => exact congrArg (request r) (funext ih)

/-- It does not matter how a sequence of conversations is grouped. -/
theorem bind_assoc (d : Dialogue I α) (f : α → Dialogue I β) (g : β → Dialogue I γ) :
    (d.bind f).bind g = d.bind fun a => (f a).bind g := by
  induction d with
  | done a => rfl
  | request r next ih => exact congrArg (request r) (funext ih)

instance : LawfulMonad (Dialogue I) :=
  LawfulMonad.mk' (Dialogue I) bind_done_right (fun _ _ => rfl) bind_assoc

/-- The result of a dialogue, and the state of the handler after it. -/
def run (h : Handler I σ) : Dialogue I α → σ → α × σ
  | done a, s => (a, s)
  | request r next, s =>
    let (answer, s) := h r s
    (next answer).run h s

/-- The requests of a run with their answers, in order. -/
def transcript (h : Handler I σ) : Dialogue I α → σ → List (Exchange I)
  | done _, _ => []
  | request r next, s =>
    let (answer, s) := h r s
    ⟨r, answer⟩ :: (next answer).transcript h s

/-- A run in a monad. -/
def runIn {m : Type → Type} [Monad m] (h : (r : I.Request) → m (I.Response r)) :
    Dialogue I α → m α
  | done a => pure a
  | request r next => h r >>= fun answer => (next answer).runIn h

/-- A dialogue in which every request is answered by a dialogue over another interface. -/
def through (h : (r : I.Request) → Dialogue J (I.Response r)) : Dialogue I α → Dialogue J α
  | done a => done a
  | request r next => (h r).bind fun answer => (next answer).through h

/-- A dialogue in which every request is answered by a dialogue over another interface; those
dialogues hand a state on to each other. -/
def throughWith (h : (r : I.Request) → σ → Dialogue J (I.Response r × σ)) :
    Dialogue I α → σ → Dialogue J (α × σ)
  | done a, s => done (a, s)
  | request r next, s => (h r s).bind fun (answer, s) => (next answer).throughWith h s

@[simp] theorem run_done (h : Handler I σ) (a : α) (s : σ) :
    (done a : Dialogue I α).run h s = (a, s) := rfl

@[simp] theorem run_request (h : Handler I σ) (r : I.Request) (next : I.Response r → Dialogue I α)
    (s : σ) : (request r next).run h s = (next (h r s).1).run h (h r s).2 := rfl

/-- A run goes through the parts of a conversation one after another. -/
@[simp] theorem run_bind (h : Handler I σ) (d : Dialogue I α) (f : α → Dialogue I β) (s : σ) :
    (d >>= f).run h s = (f (d.run h s).1).run h (d.run h s).2 := by
  induction d generalizing s with
  | done a => rfl
  | request r next ih => exact ih _ _

@[simp] theorem transcript_done (h : Handler I σ) (a : α) (s : σ) :
    (done a : Dialogue I α).transcript h s = [] := rfl

@[simp] theorem transcript_request (h : Handler I σ) (r : I.Request)
    (next : I.Response r → Dialogue I α) (s : σ) :
    (request r next).transcript h s =
      ⟨r, (h r s).1⟩ :: (next (h r s).1).transcript h (h r s).2 := rfl

/-- The requests of a conversation come part after part. -/
@[simp] theorem transcript_bind (h : Handler I σ) (d : Dialogue I α) (f : α → Dialogue I β)
    (s : σ) :
    (d >>= f).transcript h s =
      d.transcript h s ++ (f (d.run h s).1).transcript h (d.run h s).2 := by
  induction d generalizing s with
  | done a => rfl
  | request r next ih => simpa using ih _ _

end Dialogue
end LintSetup
