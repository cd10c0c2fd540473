import LintSetup.Dialogue
import LintSetup.Failure
import LintSetup.Json.Record
import LintSetup.Json.Skip
import LintSetup.Json.Text
import LintSetup.Text.Blank
import LintSetup.Text.Utf8

/-!
# Requests and replies, line by line

The linter runs in a process of its own.  A request to it is one line with a JSON object that has a
number and the name of an operation; a reply is one line with the number of its request.  The
process may print other things too, and a reply may come late, so lines are read until one is the
reply to the request at hand.

* `Channel` --- the conversation in lines: sending one, and taking lines up to one to stop at;
* `Reply` --- what a line of a reply says;
* `requestLine` --- the line of a request;
* `call` --- a request and its reply.
-/

namespace LintSetup.Bridge

open Text (Bytes)

/-- What is asked of a channel.  `receive` takes lines up to the first one that `stop` accepts and
answers that line, or nothing when there is none before the end. -/
inductive Channel.Request where
  | send (line : String)
  | receive (stop : Bytes → Bool)

/-- The type of the answer to each request. -/
def Channel.Request.Response : Channel.Request → Type
  | send _ => Except IoError Unit
  | receive _ => Option Bytes

/-- The conversation in lines. -/
def Channel : Interface := ⟨Channel.Request, Channel.Request.Response⟩

/-- A reply: the number of its request, and a result or what went wrong. -/
structure Reply where
  id : Option Nat
  ok : Bool
  result : Json := .null
  error : Option String := none

namespace Reply

/-- The fields of a reply, in order. -/
def fieldNames : List String := ["id", "ok", "result", "error"]

/-- A number of 64 bits or nothing. -/
def readId? : Json → Option (Option Nat)
  | .null => some none
  | v => (Json.natBelow? (Nat.pow 2 64) v).map some

/-- Whether one of the fields is there twice. -/
def repeatsField : Json → Bool
  | .obj members => fieldNames.any fun name => 1 < (Members.keys members).count name
  | _ => false

/-- Whether a value is a list with too few items: the number and the outcome cannot be left out of
one. -/
def isShort : Json → Bool
  | .arr items => items.length < 2
  | _ => false

/-- The reply that a value, read with its members as written, stands for. -/
def ofJson? (v : Json) : Option Reply :=
  if repeatsField v || isShort v then none
  else do
    let fields ← v.fields? fieldNames
    let id ← Json.field? fields "id" none readId?
    let ok ← (← Members.get? fields "ok").bool?
    let result ← Json.field? fields "result" Json.null some
    let error ← Json.field? fields "error" none Json.optionalStr?
    return { id, ok, result := result.merged, error }

/-- How deep the lists and objects of a line may be nested. -/
def maxDepth : Nat := 127

/-- The reply that a line is.  Members of other names are skipped. -/
def ofLine? (line : String) : Option Reply :=
  (Json.parseRecord? fieldNames maxDepth (Text.trim line)).bind ofJson?

/-- What a reply to an operation comes to. -/
def outcome (op : String) (r : Reply) : Except Failure Json :=
  if r.ok then .ok r.result
  else .error (.of (.bridgeRefused op (r.error.getD "unknown error")))

end Reply

/-- The object of a request: its parameters, its number and the name of its operation. -/
def requestObject (id : Nat) (op : String) (params : Members Json) : Json :=
  .obj (Members.set (Members.set params "id" (.ofNat id)) "op" (.str op))

/-- The line of a request. -/
def requestLine (id : Nat) (op : String) (params : Members Json) : String :=
  (requestObject id op params).compact ++ "\n"

/-- The reply with a number that a text is. -/
def replyTo? (id : Nat) (line : String) : Option Reply :=
  (Reply.ofLine? line).filter (·.id == some id)

/-- Whether reading ends at a line: it is the reply with a number, or not a text at all. -/
def stopsAt (id : Nat) (line : Bytes) : Bool :=
  match Text.decode? line with
  | none => true
  | some text => (replyTo? id text).isSome

/-- What the line at which reading ended means; there is none when the process has ended. -/
def conclude (id : Nat) (op : String) : Option Bytes → Except Failure Json
  | none => .error (.of (.bridgeExited op))
  | some line =>
    match Text.decode? line with
    | none => .error (.during .readBridge (.io .invalidText))
    | some text =>
      match replyTo? id text with
      | none => .error (.of (.bridgeExited op))
      | some reply => reply.outcome op

/-- A request and its reply. -/
def call (id : Nat) (op : String) (params : Members Json) : Dialogue Channel (Except Failure Json) := do
  match ← Dialogue.ask (I := Channel) (.send (requestLine id op params)) with
  | .error e => return .error (.during .writeBridge (.io e))
  | .ok _ => return conclude id op (← Dialogue.ask (I := Channel) (.receive (stopsAt id)))

end LintSetup.Bridge
