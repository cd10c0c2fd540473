import LintSetup.Wizard.Session

/-!
# A user whose answers are known

In a rehearsal the answers of the user are a list, from which every question takes the next one.  A
question fails if there is no answer left, or if the answer is not of its kind; a text that it has a
complaint about is passed over and the question is asked again.

* `Reply` --- an answer;
* `User` --- the answers that are left, and what the user was told;
* `User.answer` --- the answer to a question.
-/

namespace LintSetup.Wizard

/-- An answer of a user.  `other` is of no kind that is asked for. -/
inductive Reply where
  | standard
  | select (place : Nat)
  | confirm (yes : Bool)
  | selectMany (places : List Nat)
  | input (text : String)
  | other
  deriving DecidableEq, Repr

/-- What a user is told: a question, or a complaint about the answer to one. -/
inductive Told where
  | question (q : Question)
  | complaint (text : String)

/-- A user: the answers that are left, and what the user was told so far. -/
structure User where
  replies : List Reply
  told : List Told := []

/-- The places that are chosen unless the user says otherwise. -/
def chosenPlaces (standard : List Bool) : List Nat :=
  standard.zipIdx.filterMap fun (on, place) => if on then some place else none

/-- What an answer says to a question.  A text has to be given. -/
def Reply.read : (q : Question) → Reply → Option q.Answer
  | .select _ _ place, standard => some place
  | .select .., select place => some place
  | .confirm _ yes, standard => some yes
  | .confirm .., confirm yes => some yes
  | .selectMany _ _ on, standard => some (chosenPlaces on)
  | .selectMany .., selectMany places => some places
  | .input .., input text => some text
  | _, _ => none

/-- What there is to be said against an answer to a question. -/
def Question.objection : (q : Question) → q.Answer → Option String
  | input _ complaint, text => complaint text
  | select .., _ => none
  | confirm .., _ => none
  | selectMany .., _ => none

/-- The answer to a question from a list of answers, what the user was told after what was told
before, and the answers that are left. -/
def answerFrom (q : Question) (told : List Told) : List Reply → Except Failure q.Answer × User
  | [] =>
    (.error (.of (.said s!"no answer for '{q.message}'")),
      { replies := [], told := told ++ [.question q] })
  | reply :: rest =>
    let told := told ++ [.question q]
    match reply.read q with
    | none => (.error (.of (.said s!"wrong answer for '{q.message}'")), { replies := rest, told })
    | some a =>
      match q.objection a with
      | none => (.ok a, { replies := rest, told })
      | some complaint => answerFrom q (told ++ [.complaint complaint]) rest

/-- The answer of a user to a question. -/
def User.answer (q : Question) (u : User) : Except Failure q.Answer × User :=
  answerFrom q u.told u.replies

end LintSetup.Wizard
