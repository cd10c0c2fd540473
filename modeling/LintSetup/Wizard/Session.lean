import LintSetup.Bridge.Process
import LintSetup.Packages.Manager

/-!
# The set-up as a conversation

Setting a project up is a conversation with three partners: the user, who is asked questions; the
package manager; and the machine.  Each of them may fail to answer, and an inspection on the way may
fail in its own ways; the first failure ends the conversation.

* `Question` --- what the user can be asked, and `Question.Answer`, what the answer is;
* `Wizard` --- the conversation;
* `Wizard.Session` --- a conversation that ends with a result or a failure.
-/

namespace LintSetup.Wizard

/-- A question to the user: to choose one of several things, to say yes or no, to choose any number
of things, or to write a text.  The last argument is what the answer is unless the user says
otherwise; a text has none, and is asked for again as long as `complaint` has something against it.
-/
inductive Question where
  | select (message : String) (choices : List String) (standard : Nat)
  | confirm (message : String) (standard : Bool)
  | selectMany (message : String) (choices : List String) (standard : List Bool)
  | input (message : String) (complaint : String → Option String)

/-- The wording of a question. -/
def Question.message : Question → String
  | select message .. | confirm message _ | selectMany message .. | input message _ => message

/-- The type of the answer to each question.  Choices are given by their places. -/
def Question.Answer : Question → Type
  | select .. => Nat
  | confirm .. => Bool
  | selectMany .. => List Nat
  | input .. => String

/-- What is asked of the three partners. -/
inductive Request where
  | question (q : Question)
  | packages (r : Packages.Request)
  | host (r : Host.Request)

/-- The type of the answer to each request. -/
def Request.Response : Request → Type
  | question q => Except Failure q.Answer
  | packages r => r.Response
  | host r => r.Response

end Wizard

/-- The conversation in which a project is set up. -/
def Wizard : Interface := ⟨Wizard.Request, Wizard.Request.Response⟩

namespace Wizard

/-- What can end a conversation early. -/
inductive Error where
  | failed (failure : Failure)
  | inspection (error : Inspection.InspectError)

/-- A conversation that ends with a result or a failure. -/
abbrev Session (α : Type) := ExceptT Error (Dialogue Wizard) α

/-- A part of the conversation that may fail. -/
def attempt {α : Type} (d : Dialogue Wizard (Except Failure α)) : Session α := do
  match ← (d : Dialogue Wizard _) with
  | .ok a => return a
  | .error f => throw (.failed f)

/-- Asks the user. -/
def ask (q : Question) : Session q.Answer := attempt (Dialogue.ask (I := Wizard) (.question q))

/-- A conversation with the package manager as a part. -/
def packages {α : Type} (d : Packages.Session α) : Session α :=
  attempt (d.run.through fun r => Dialogue.ask (I := Wizard) (.packages r))

/-- A conversation with the machine as a part. -/
def host {α : Type} (d : Host.Session α) : Session α :=
  (d.through fun r => Dialogue.ask (I := Wizard) (.host r) : Dialogue Wizard α)

/-- A conversation with the machine as a part that may fail. -/
def hostAttempt {α : Type} (d : Host.Session (Except Failure α)) : Session α :=
  attempt (d.through fun r => Dialogue.ask (I := Wizard) (.host r))

end Wizard
end LintSetup
