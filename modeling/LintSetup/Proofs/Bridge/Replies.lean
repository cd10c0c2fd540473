import LintSetup.Bridge.Process
import LintSetup.Proofs.Json.Record
import LintSetup.Proofs.Json.Skip
import LintSetup.Proofs.Machine.Lines
import Mathlib.Control.Monad.Basic

/-!
# Which reply belongs to which request

The process that is asked may write anything at any time: other output, replies that come late,
replies that come twice.  Here it is a stream of bytes that nobody has read yet (`pipe`), and this
file says what a sequence of queries makes of it.

* `Reply.Says` --- what the object or the list of a line says as a reply.
* `Answers` --- one request: lines are passed over until one is the reply with the number of the
  request, or there are none left.
* `Exchanges` --- requests one after another: each has the next number, whatever came of those
  before it, and goes on with the lines that they left.

`answers_takeLines` is the step for one request, and `exchanges_queries` goes from there to any
number of queries by induction.  What is left of the stream is all that one query hands on to the
next, so a reply that was given up is passed over like any other line.
-/

namespace LintSetup.Bridge

open Text (Bytes)

/-! ## Lines that are replies -/

/-- The reply that a line is, whatever its number. -/
def replyOf? (line : Bytes) : Option Reply := (Text.decode? line).bind Reply.ofLine?

/-- Whether a line is the reply with a number. -/
def IsReplyTo (id : Nat) (line : Bytes) : Prop :=
  ∃ reply, replyOf? line = some reply ∧ reply.id = some id

/-- What fields say as a reply.  A result that is not there is null. -/
structure Reply.Says (reply : Reply) (fields : Members Json) : Prop where
  id : ∀ n, reply.id = some n → ∃ v, Members.get? fields "id" = some v ∧ v.nat? = some n
  ok : Members.get? fields "ok" = some (.bool reply.ok)
  result : reply.result = ((Members.get? fields "result").map Json.merged).getD .null
  error : ∀ message, reply.error = some message ↔ Members.get? fields "error" = some (.str message)

theorem nat?_of_readId? {v : Json} {n : Nat} (h : Reply.readId? v = some (some n)) :
    v.nat? = some n := by
  unfold Reply.readId? at h
  split at h
  · cases h
  · obtain ⟨m, hm, hmn⟩ := Option.map_eq_some_iff.mp h
    rw [(Json.natBelow?_eq_some_iff.mp hm).1, hmn]

/-- The value that a reply is read from says what is in the reply. -/
theorem exists_says_of_ofJson? {v : Json} {reply : Reply} (h : Reply.ofJson? v = some reply) :
    ∃ fields, v.fields? Reply.fieldNames = some fields ∧ reply.Says fields := by
  rw [Reply.ofJson?] at h
  split at h
  · cases h
  · simp only [Option.bind_eq_bind, Option.bind_eq_some_iff, Option.pure_def,
      Option.some.injEq] at h
    obtain ⟨fields, hfields, id, hid, okValue, hokValue, ok, hok, result, hresult, error, herror,
      rfl⟩ := h
    rw [Json.field?_eq_some_iff] at hid hresult herror
    refine ⟨fields, hfields, ?_, ?_, ?_, ?_⟩
    · rintro n rfl
      obtain ⟨-, hnone⟩ | ⟨w, hw, hread⟩ := hid
      · cases hnone
      · exact ⟨w, hw, nat?_of_readId? hread⟩
    · cases okValue with
      | bool b => rwa [← Option.some.inj hok]
      | _ => cases hok
    · obtain ⟨hnone, rfl⟩ | ⟨w, hw, hread⟩ := hresult
      · rw [hnone]
        rfl
      · rw [hw, ← Option.some.inj hread]
        rfl
    · intro message
      obtain ⟨hnone, rfl⟩ | ⟨w, hw, hread⟩ := herror
      · simp [hnone]
      · obtain ⟨rfl, rfl⟩ | ⟨text, rfl, rfl⟩ := Json.optionalStr?_eq_some_iff.mp hread <;> simp [hw]

/-- Nothing but the fields of a reply is of account. -/
theorem Reply.Says.congr {reply : Reply} {fields written : Members Json} (h : reply.Says fields)
    (hget : ∀ name ∈ fieldNames, Members.get? written name = Members.get? fields name) :
    reply.Says written := by
  rw [fieldNames, List.forall_mem_cons, List.forall_mem_cons, List.forall_mem_cons,
    List.forall_mem_singleton] at hget
  obtain ⟨hid, hok, hresult, herror⟩ := hget
  constructor
  · rw [hid]
    exact h.id
  · rw [hok]
    exact h.ok
  · rw [hresult]
    exact h.result
  · rw [herror]
    exact h.error

/-- A line says a reply if its text, without the blanks around it, is a record whose fields say it.
Members that are no fields of a reply need only be JSON; where the text is a value with everything
that is in it, the fields of that value say the reply. -/
def LineSays (line : Bytes) (reply : Reply) : Prop :=
  ∃ text, Text.decode? line = some text ∧
    (∃ v fields, Json.parseRecord? Reply.fieldNames Reply.maxDepth (Text.trim text) = some v ∧
      v.fields? Reply.fieldNames = some fields ∧ reply.Says fields) ∧
    ∀ v, Json.parseWritten? Reply.maxDepth (Text.trim text) = some v →
      ∃ fields, v.fields? Reply.fieldNames = some fields ∧ reply.Says fields

theorem lineSays_of_replyOf? {line : Bytes} {reply : Reply} (h : replyOf? line = some reply) :
    LineSays line reply := by
  obtain ⟨text, htext, hreply⟩ := Option.bind_eq_some_iff.mp h
  obtain ⟨v, hv, hreply⟩ := Option.bind_eq_some_iff.mp hreply
  obtain ⟨fields, hfields, hsaid⟩ := exists_says_of_ofJson? hreply
  refine ⟨text, htext, ⟨v, fields, hv, hfields, hsaid⟩, fun w hw => ?_⟩
  obtain rfl := Option.some.inj (hv.symm.trans (Json.parseRecord?_of_parseWritten? hw))
  obtain ⟨written, hwritten, hget⟩ := Json.exists_fields?_of_keeping hfields
  exact ⟨written, hwritten, hsaid.congr hget⟩

/-- The reply with a number that the text of a line is. -/
theorem replyTo?_eq_some_iff {id : Nat} {text : String} {reply : Reply} :
    replyTo? id text = some reply ↔ Reply.ofLine? text = some reply ∧ reply.id = some id := by
  rw [replyTo?, Option.filter_eq_some_iff, beq_iff_eq]

/-- Where a line is a text, reading stops at it exactly when it is the reply. -/
theorem stopsAt_iff {id : Nat} {line : Bytes} (hline : (Text.decode? line).isSome) :
    stopsAt id line = true ↔ IsReplyTo id line := by
  obtain ⟨text, htext⟩ := Option.isSome_iff_exists.mp hline
  rw [stopsAt, IsReplyTo, replyOf?, htext, Option.bind_some]
  simp only [Option.isSome_iff_exists, replyTo?_eq_some_iff]

theorem conclude_of_replyOf? {id : Nat} (op : String) {line : Bytes} {reply : Reply}
    (h : replyOf? line = some reply) (hid : reply.id = some id) :
    conclude id op (some line) = reply.outcome op := by
  obtain ⟨text, htext, hreply⟩ := Option.bind_eq_some_iff.mp h
  rw [conclude, htext]
  simp only [replyTo?_eq_some_iff.mpr ⟨hreply, hid⟩]

/-! ## One request -/

/-- What a request with a number comes to when there are unread lines: the line at which reading
ends, what it means, and the lines that are left. -/
inductive Answers (id : Nat) (op : String) :
    List Bytes → Option Bytes → Except Failure Json → List Bytes → Prop
  /-- The first line that is the reply with the number says that the operation went well. -/
  | result {passed rest : List Bytes} {line : Bytes} {reply : Reply}
    (hpassed : ∀ l ∈ passed, ¬ IsReplyTo id l) (hreply : replyOf? line = some reply)
    (hsaid : LineSays line reply) (hid : reply.id = some id) (hok : reply.ok = true) :
    Answers id op (passed ++ line :: rest) (some line) (.ok reply.result) rest
  /-- It says that the operation did not go well. -/
  | refused {passed rest : List Bytes} {line : Bytes} {reply : Reply}
    (hpassed : ∀ l ∈ passed, ¬ IsReplyTo id l) (hreply : replyOf? line = some reply)
    (hsaid : LineSays line reply) (hid : reply.id = some id) (hok : reply.ok = false) :
    Answers id op (passed ++ line :: rest) (some line)
      (.error (.of (.bridgeRefused op (reply.error.getD "unknown error")))) rest
  /-- No line is the reply, and none is left. -/
  | exited {unread : List Bytes} (hunread : ∀ l ∈ unread, ¬ IsReplyTo id l) :
    Answers id op unread none (.error (.of (.bridgeExited op))) []

/-- A line that carries a request with a number: an object with the number, the name of the
operation, and the parameters of other names. -/
def Carries (id : Nat) (op : String) (params : Members Json) (line : String) : Prop :=
  ∃ members, line = (Json.obj members).compact ++ "\n" ∧
    Members.get? members "id" = some (.ofNat id) ∧ Members.get? members "op" = some (.str op) ∧
      ∀ name, name ≠ "id" → name ≠ "op" → Members.get? members name = Members.get? params name

theorem carries_requestLine (id : Nat) (op : String) (params : Members Json) :
    Carries id op params (requestLine id op params) := by
  refine ⟨_, rfl, ?_, Members.get?_set_self _ _ _, ?_⟩
  · rw [Members.get?_set_ne _ _ (by decide), Members.get?_set_self]
  · intro name hid hop
    rw [Members.get?_set_ne _ _ hop, Members.get?_set_ne _ _ hid]

/-- A machine on which a process takes whatever it is sent, and on which the bytes are all that the
process writes and nobody has read. -/
def pipe (other : Handler Host Bytes) : Handler Host Bytes
  | .send _ _, unread => (.ok (), unread)
  | .receive _ stop, unread => Machine.takeLines stop unread.length unread
  | r, unread => other r unread

/-- Reading up to the reply to a request answers it. -/
theorem answers_takeLines (id : Nat) (op : String) {unread : Bytes}
    (hutf8 : ∀ line ∈ Machine.lines unread, (Text.decode? line).isSome) :
    let taken := Machine.takeLines (stopsAt id) unread.length unread
    Answers id op (Machine.lines unread) taken.1 (conclude id op taken.1)
      (Machine.lines taken.2) := by
  have hpass : ∀ {l : Bytes}, l ∈ Machine.lines unread → stopsAt id l = false →
      ¬ IsReplyTo id l := by
    intro l hl hstop hreply
    rw [(stopsAt_iff (hutf8 l hl)).mpr hreply] at hstop
    cases hstop
  rcases Machine.takeLines_cases (stopsAt id) (Nat.le_refl unread.length) with
    ⟨passed, line, rest, hlines, hpassed, hline, htake⟩ | ⟨hall, htake⟩
  · have hmem : ∀ l ∈ passed, l ∈ Machine.lines unread := fun l hl => by
      rw [hlines]
      exact List.mem_append_left _ hl
    have hmemLine : line ∈ Machine.lines unread := by
      rw [hlines]
      exact List.mem_append_right _ List.mem_cons_self
    obtain ⟨reply, hreply, hid⟩ := (stopsAt_iff (hutf8 line hmemLine)).mp hline
    have hnone : ∀ l ∈ passed, ¬ IsReplyTo id l := fun l hl => hpass (hmem l hl) (hpassed l hl)
    have hsaid := lineSays_of_replyOf? hreply
    rw [htake, hlines]
    dsimp only
    rw [conclude_of_replyOf? op hreply hid, Reply.outcome]
    cases hok : reply.ok with
    | true => exact .result hnone hreply hsaid hid hok
    | false => exact .refused hnone hreply hsaid hid hok
  · rw [htake]
    exact .exited fun l hl => hpass hl (hall l hl)

/-! ## Queries one after another -/

/-- Queries over one link, one after another.  Queries with results of several types count as
queries whose results are of one type that has room for them all. -/
def queries {α : Type} : List (Query α) → Link → Host.Session (List (Except Failure α) × Link)
  | [], link => pure ([], link)
  | q :: rest, link => do
    let (result, link) ← query q link
    let (results, link) ← queries rest link
    return (result :: results, link)

/-- How queries go one after another after the one with the number `last`: what is asked of the
process, what the queries come to, and the lines that are left in the end. -/
inductive Exchanges {α : Type} (process : ProcessId) : Nat → List (Query α) → List Bytes →
    List (Exchange Host) → List (Except Failure α) → List Bytes → Prop
  | nil (last : Nat) (unread : List Bytes) : Exchanges process last [] unread [] [] unread
  /-- A query has the next number, and the others go on with what it leaves. -/
  | cons {last : Nat} {q : Query α} {qs : List (Query α)} {unread rest left : List Bytes}
    {line : String} {taken : Option Bytes} {answer : Except Failure Json}
    {es : List (Exchange Host)} {results : List (Except Failure α)}
    (hsent : Carries (last + 1) q.op q.params line)
    (hanswer : Answers (last + 1) q.op unread taken answer rest)
    (hrest : Exchanges process (last + 1) qs rest es results left) :
    Exchanges process last (q :: qs) unread
      (⟨.send process line, Except.ok ()⟩ :: ⟨.receive process (stopsAt (last + 1)), taken⟩ :: es)
      (q.conclude answer :: results) left

variable {α : Type}

/-- A query asks the process to take its line and then for the reply. -/
theorem transcript_query (other : Handler Host Bytes) (q : Query α) (link : Link) (unread : Bytes) :
    (query q link).transcript (pipe other) unread =
      [⟨.send link.process (requestLine (link.lastId + 1) q.op q.params), Except.ok ()⟩,
        ⟨.receive link.process (stopsAt (link.lastId + 1)),
          (Machine.takeLines (stopsAt (link.lastId + 1)) unread.length unread).1⟩] :=
  rfl

theorem run_query (other : Handler Host Bytes) (q : Query α) (link : Link) (unread : Bytes) :
    (query q link).run (pipe other) unread =
      let taken := Machine.takeLines (stopsAt (link.lastId + 1)) unread.length unread
      ((q.conclude (conclude (link.lastId + 1) q.op taken.1),
        { link with lastId := link.lastId + 1 }), taken.2) :=
  rfl

/-- Lines that are left were there before. -/
theorem Answers.subset {id : Nat} {op : String} {unread rest : List Bytes} {taken : Option Bytes}
    {answer : Except Failure Json} (h : Answers id op unread taken answer rest) :
    rest ⊆ unread := by
  cases h with
  | result | refused => exact fun l hl => List.mem_append_right _ (List.mem_cons_of_mem _ hl)
  | exited => exact List.nil_subset _

/-- Queries after the one with the number that the link has reached. -/
theorem exchanges_queries (other : Handler Host Bytes) (qs : List (Query α)) (link : Link)
    {unread : Bytes} (hutf8 : ∀ line ∈ Machine.lines unread, (Text.decode? line).isSome) :
    Exchanges link.process link.lastId qs (Machine.lines unread)
      ((queries qs link).transcript (pipe other) unread)
      ((queries qs link).run (pipe other) unread).1.1
      (Machine.lines ((queries qs link).run (pipe other) unread).2) := by
  induction qs generalizing link unread with
  | nil => exact .nil _ _
  | cons q qs ih =>
    have hanswer := answers_takeLines (link.lastId + 1) q.op hutf8
    rw [queries, Dialogue.transcript_bind, Dialogue.run_bind, transcript_query, run_query]
    dsimp only at hanswer ⊢
    generalize Machine.takeLines (stopsAt (link.lastId + 1)) unread.length unread = taken
      at hanswer ⊢
    have hleft : ∀ line ∈ Machine.lines taken.2, (Text.decode? line).isSome := fun line hline =>
      hutf8 line (hanswer.subset hline)
    have hrest := ih { link with lastId := link.lastId + 1 } hleft
    rw [Dialogue.transcript_bind, Dialogue.run_bind, Dialogue.pure_eq, Dialogue.transcript_done,
      Dialogue.run_done, List.append_nil]
    exact .cons (carries_requestLine _ _ _) hanswer hrest

/-- What a request comes to says that the process has ended, or it is what a line says that was
unread and is the reply with the number of the request. -/
theorem Answers.eq_outcome {id : Nat} {op : String} {unread rest : List Bytes}
    {taken : Option Bytes} {answer : Except Failure Json}
    (h : Answers id op unread taken answer rest) :
    answer = .error (.of (.bridgeExited op)) ∨
      ∃ line ∈ unread, ∃ reply, replyOf? line = some reply ∧ reply.id = some id ∧
        answer = reply.outcome op := by
  cases h with
  | result _ hreply _ hid hok =>
    refine .inr ⟨_, List.mem_append_right _ List.mem_cons_self, _, hreply, hid, ?_⟩
    rw [Reply.outcome, if_pos hok]
  | refused _ hreply _ hid hok =>
    refine .inr ⟨_, List.mem_append_right _ List.mem_cons_self, _, hreply, hid, ?_⟩
    rw [Reply.outcome, hok, if_neg Bool.false_ne_true]
  | exited => exact .inl rfl

/-- The same for queries one after another. -/
theorem Exchanges.getElem?_results {process : ProcessId} {last : Nat} {qs : List (Query α)}
    {unread left : List Bytes} {es : List (Exchange Host)} {results : List (Except Failure α)}
    (h : Exchanges process last qs unread es results left) {k : Nat} {q : Query α}
    (hq : qs[k]? = some q) :
    ∃ answer, results[k]? = some (q.conclude answer) ∧
      (answer = .error (.of (.bridgeExited q.op)) ∨
        ∃ line ∈ unread, ∃ reply, replyOf? line = some reply ∧ reply.id = some (last + k + 1) ∧
          answer = reply.outcome q.op) := by
  induction h generalizing k with
  | nil => simp at hq
  | @cons last q' qs unread rest left line taken answer es results _ hanswer _ ih =>
    cases k with
    | zero =>
      obtain rfl : q' = q := by simpa using hq
      exact ⟨answer, rfl, hanswer.eq_outcome⟩
    | succ k =>
      obtain ⟨answer', hresult, hanswer'⟩ := ih (by simpa using hq)
      refine ⟨answer', by simpa using hresult, hanswer'.imp_right ?_⟩
      rintro ⟨line, hline, reply, hreply, hid, hout⟩
      refine ⟨line, hanswer.subset hline, reply, hreply, ?_, hout⟩
      rw [hid]
      congr 1
      omega

/-- **Replies to queries over one link.**  Queries are made one after another over a new link, and
the process writes any lines whatsoever.  Each query has the next number, passes over the lines that
are not the reply with that number, and comes to what the first such reply says; or it passes over
all lines and fails because the process has ended.  So what a query comes to never stems from a
reply with another number, however late it is read. -/
theorem replies_queries (other : Handler Host Bytes) (process : ProcessId) (qs : List (Query α))
    {output : Bytes} (hutf8 : ∀ line ∈ Machine.lines output, (Text.decode? line).isSome) :
    Exchanges process 0 qs (Machine.lines output)
        ((queries qs { process }).transcript (pipe other) output)
        ((queries qs { process }).run (pipe other) output).1.1
        (Machine.lines ((queries qs { process }).run (pipe other) output).2) ∧
      ∀ k q, qs[k]? = some q →
        ∃ answer,
          ((queries qs { process }).run (pipe other) output).1.1[k]? = some (q.conclude answer) ∧
            (answer = .error (.of (.bridgeExited q.op)) ∨
              ∃ line ∈ Machine.lines output, ∃ reply, replyOf? line = some reply ∧
                reply.id = some (k + 1) ∧ answer = reply.outcome q.op) := by
  have h := exchanges_queries other qs { process } hutf8
  refine ⟨h, fun k q hq => ?_⟩
  have hresult := h.getElem?_results hq
  rwa [Nat.zero_add] at hresult

/-- Output, a reply to the second request, a refusal of the first one that comes after it and comes
twice, and the reply to the second one again, without a result. -/
def sampleOutput : Bytes :=
  Text.encode ("ready\n\x7b\"id\":2,\"ok\":true,\"result\":1\x7d\n" ++
    "\x7b\"id\":1,\"ok\":false,\"error\":\"busy\"\x7d\n\n" ++
    "\x7b\"id\":1,\"ok\":false,\"error\":\"busy\"\x7d\n\x7b\"ok\":true,\"id\":2\x7d")

/-- The answers of a machine without files, which does not get any either. -/
def bareMachine : Handler Host Bytes := fun r unread =>
  ((Machine.answer r { files := .dir [] }).1, unread)

/-- Three texts to be mended. -/
def sampleQueries : List (Query (Option String)) :=
  ["let a", "let b", "let c"].map (Query.fix · .empty)

/-- The first query is refused; the second one has nothing for a result, since the reply that came
before its time was passed over; and the process has ended when the third one is made. -/
theorem replies_queries_sampleOutput :
    (∀ line ∈ Machine.lines sampleOutput, (Text.decode? line).isSome) ∧
      Exchanges 0 0 sampleQueries (Machine.lines sampleOutput)
        ((queries sampleQueries { process := 0 }).transcript (pipe bareMachine) sampleOutput)
        [.error (.of (.bridgeRefused "fix" "busy")), .ok none, .error (.of (.bridgeExited "fix"))]
        [] := by
  have hutf8 : ∀ line ∈ Machine.lines sampleOutput, (Text.decode? line).isSome := by decide +kernel
  have hrun : ((queries sampleQueries { process := 0 }).run (pipe bareMachine) sampleOutput).1.1 =
        [.error (.of (.bridgeRefused "fix" "busy")), .ok none,
          .error (.of (.bridgeExited "fix"))] ∧
      ((queries sampleQueries { process := 0 }).run (pipe bareMachine) sampleOutput).2 = [] := by
    decide +kernel
  have h := (replies_queries bareMachine 0 sampleQueries hutf8).1
  rw [hrun.1, hrun.2] at h
  exact ⟨hutf8, h⟩

end LintSetup.Bridge
