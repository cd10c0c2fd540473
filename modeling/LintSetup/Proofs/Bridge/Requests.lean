import LintSetup.Bridge.Channel
import LintSetup.Proofs.Dialogue
import LintSetup.Proofs.Json.Characters
import LintSetup.Proofs.Json.Content
import LintSetup.Proofs.Json.Proper

/-!
# What is written for a request

The process at the other end takes a request for each line that its reader gives it, and that reader
ends a line at more characters than the one at the end of a request: at a carriage return, and at
the two separators of Unicode for lines and for paragraphs (`EndsLine`).

A request is written as an object in compact form and a line feed.  The object is read back with
the number of the request, the name of its operation, and the parameters of other names
(`RequestMembers`), whoever reads it.  Control characters are escaped, so neither a line feed nor a
carriage return stands in it.  The two separators are not escaped.  So a request is one line for
the reader exactly when none of them occurs in the name of the operation or in the parameters
(`sentLines_call`); a source text with one of them is cut in two
(`not_isOneLine_sentLines_separatedParams`).
-/

namespace LintSetup.Bridge

/-! ## Lines of the reader -/

/-- The separators of Unicode for lines and for paragraphs. -/
def IsSeparator (c : Char) : Prop := c = '\u2028' ∨ c = '\u2029'

/-- The reader of requests ends a line at a character. -/
def EndsLine (c : Char) : Prop := c = '\n' ∨ c = '\r' ∨ IsSeparator c

/-- A text is one line for the reader of requests, with its end. -/
def IsOneLine (line : String) : Prop :=
  ∃ body : String, line = body ++ "\n" ∧ ∀ c ∈ body.toList, ¬ EndsLine c

theorem isOneLine_append {body : String} :
    IsOneLine (body ++ "\n") ↔ ∀ c ∈ body.toList, ¬ EndsLine c := by
  constructor
  · rintro ⟨other, heq, hother⟩
    have hlist := congrArg String.toList heq
    rw [String.toList_append, String.toList_append] at hlist
    rwa [List.append_cancel_right hlist]
  · exact fun h => ⟨body, rfl, h⟩

/-- The lines that are sent over a channel. -/
def sentLines (es : List (Exchange Channel)) : List String :=
  es.filterMap fun e =>
    match e.asked with
    | .send line => some line
    | .receive _ => none

/-- On each of its branches a request sends its line, and nothing else. -/
theorem sentLines_of_leads_call {id : Nat} {op : String} {params : Members Json}
    {es : List (Exchange Channel)} {r : Except Failure Json}
    (h : (call id op params).Leads es r) : sentLines es = [requestLine id op params] := by
  obtain ⟨_, answer, _, hsend, hrest, rfl⟩ := Dialogue.leads_bind_iff.mp h
  rw [Dialogue.leads_ask_iff.mp hsend]
  cases answer with
  | error e =>
    obtain ⟨rfl, -⟩ := Dialogue.leads_pure_iff.mp hrest
    rfl
  | ok _ =>
    obtain ⟨_, line, _, hreceive, hdone, rfl⟩ := Dialogue.leads_bind_iff.mp hrest
    obtain ⟨rfl, -⟩ := Dialogue.leads_pure_iff.mp hdone
    rw [Dialogue.leads_ask_iff.mp hreceive]
    rfl

/-! ## The object of a request -/

/-- The members of a request: its number, the name of its operation, and the parameters of other
names.  None occurs twice. -/
structure RequestMembers (id : Nat) (op : String) (params members : Members Json) : Prop where
  proper : (Json.obj members).Proper
  id : Members.get? members "id" = some (.ofNat id)
  op : Members.get? members "op" = some (.str op)
  others : ∀ name, name ≠ "id" → name ≠ "op" → Members.get? members name = Members.get? params name

/-- The parameters that are not overridden. -/
def others (params : Members Json) : Members Json :=
  Members.erase (Members.erase params "id") "op"

variable {params : Members Json}

theorem requestMembers_set (id : Nat) (op : String) (h : (Json.obj params).Proper) :
    RequestMembers id op params
      (Members.set (Members.set params "id" (.ofNat id)) "op" (.str op)) where
  proper :=
    Json.proper_obj_set (Json.proper_obj_set h "id" (.ofNat id) trivial) "op" (.str op) trivial
  id := by rw [Members.get?_set_ne _ _ (by decide), Members.get?_set_self]
  op := Members.get?_set_self _ _ _
  others name hid hop := by rw [Members.get?_set_ne _ _ hop, Members.get?_set_ne _ _ hid]

theorem occursIn_texts_obj {c : Char} {members : Members Json} :
    Json.OccursIn c (Json.obj members).texts ↔
      ∃ m ∈ members, c ∈ m.1.toList ∨ Json.OccursIn c m.2.texts := by
  rw [Json.texts]
  constructor
  · rintro ⟨s, hs, hc⟩
    obtain ⟨m, hm, rfl | hs⟩ := Json.mem_textsOfMembers.mp hs
    · exact ⟨m, hm, .inl hc⟩
    · exact ⟨m, hm, .inr ⟨s, hs, hc⟩⟩
  · rintro ⟨m, hm, hc | ⟨s, hs, hc⟩⟩
    · exact ⟨m.1, Json.mem_textsOfMembers.mpr ⟨m, hm, .inl rfl⟩, hc⟩
    · exact ⟨s, Json.mem_textsOfMembers.mpr ⟨m, hm, .inr hs⟩, hc⟩

theorem mem_others {m : String × Json} :
    m ∈ others params ↔ (m ∈ params ∧ m.1 ≠ "id") ∧ m.1 ≠ "op" := by
  rw [others, Members.erase, Members.erase, List.mem_filter, List.mem_filter, bne_iff_ne,
    bne_iff_ne]

/-- Beyond ASCII, the texts of a request are those of its operation and of the parameters. -/
theorem occursIn_requestObject (id : Nat) (op : String) (h : (Members.keys params).Nodup)
    {c : Char} (hc : 0x80 ≤ c.toNat) :
    Json.OccursIn c (requestObject id op params).texts ↔
      c ∈ op.toList ∨ Json.OccursIn c (Json.obj (others params)).texts := by
  have hplain (s : String) (hs : (s.toList.all fun d => Json.IsPlain d) = true) :
      c ∉ s.toList := fun hmem =>
    absurd (Json.isPlain_of_all hs c hmem).2 (Nat.not_lt.mpr hc)
  have hid : c ∉ "id".toList := hplain "id" rfl
  have hop : c ∉ "op".toList := hplain "op" rfl
  have hnumber : ¬ Json.OccursIn c (Json.ofNat id).texts := by
    rintro ⟨s, hs, -⟩
    cases hs
  have hname : Json.OccursIn c (Json.str op).texts ↔ c ∈ op.toList := by
    simp [Json.OccursIn, Json.texts]
  rw [requestObject, occursIn_texts_obj, occursIn_texts_obj]
  simp only [Members.mem_set_iff (Members.nodup_keys_set h "id" _), Members.mem_set_iff h,
    mem_others]
  constructor
  · rintro ⟨m, rfl | ⟨rfl | hm, hne⟩, hoccurs⟩
    · exact .inl (hname.mp (hoccurs.resolve_left hop))
    · exact absurd hoccurs (not_or.mpr ⟨hid, hnumber⟩)
    · exact .inr ⟨m, ⟨hm, hne⟩, hoccurs⟩
  · rintro (hoccurs | ⟨m, ⟨hm, hne⟩, hoccurs⟩)
    · exact ⟨("op", .str op), .inl rfl, .inr (hname.mpr hoccurs)⟩
    · exact ⟨m, .inr ⟨.inr hm, hne⟩, hoccurs⟩

/-! ## Requests as lines -/

theorem toNat_of_isSeparator {c : Char} (h : IsSeparator c) : 0x80 ≤ c.toNat := by
  rcases h with rfl | rfl <;> decide

/-- **What is written for a request.**  On every branch one text is written: an object and a line
feed.  The object is read back with the number of the request, the name of its operation, and the
parameters of other names; neither a line feed nor a carriage return stands in it.  It is one line
for the reader of requests exactly when neither the name of the operation nor the parameters have
a separator in them. -/
theorem sentLines_call (id : Nat) (op : String) (hparams : (Json.obj params).Proper)
    {es : List (Exchange Channel)} {r : Except Failure Json} (h : (call id op params).Leads es r) :
    ∃ (body : String) (members : Members Json), sentLines es = [body ++ "\n"] ∧
      Json.Content.read? body = some (Json.obj members).content ∧
      RequestMembers id op params members ∧
      (∀ c ∈ body.toList, c ≠ '\n' ∧ c ≠ '\r') ∧
      (IsOneLine (body ++ "\n") ↔
        ∀ c, IsSeparator c → c ∉ op.toList ∧ ¬ Json.OccursIn c (Json.obj (others params)).texts) := by
  have hcontrol : ∀ c ∈ (requestObject id op params).compact.toList, c ≠ '\n' ∧ c ≠ '\r' := by
    intro c hc
    rw [Json.compact, String.toList_ofList] at hc
    have hlow := Json.le_toNat_of_mem_compactChars hc
    constructor
    · rintro rfl
      exact absurd hlow (by decide)
    · rintro rfl
      exact absurd hlow (by decide)
  refine ⟨(requestObject id op params).compact, _, sentLines_of_leads_call h,
    Json.Content.read?_compact _, requestMembers_set id op hparams, hcontrol, ?_⟩
  have hoccurs (c : Char) (hc : IsSeparator c) :
      c ∈ (requestObject id op params).compact.toList ↔
        c ∈ op.toList ∨ Json.OccursIn c (Json.obj (others params)).texts := by
    rw [Json.compact, String.toList_ofList, Json.mem_compactChars_iff (toNat_of_isSeparator hc),
      occursIn_requestObject id op (Json.proper_obj.mp hparams).1 (toNat_of_isSeparator hc)]
  rw [isOneLine_append]
  constructor
  · intro hline c hc
    rw [← not_or, ← hoccurs c hc]
    exact fun hmem => hline c hmem (.inr (.inr hc))
  · rintro hnone c hc (hfeed | hreturn | hseparator)
    · exact (hcontrol c hc).1 hfeed
    · exact (hcontrol c hc).2 hreturn
    · exact not_or.mpr (hnone c hseparator) ((hoccurs c hseparator).mp hc)

/-- Parameters of a query that bring a name for an operation of their own. -/
def sampleParams : Members Json :=
  [("text", .str "let a\nlet b"), ("op", .str "load"), ("config", .obj [])]

/-- A branch on which the request is written. -/
theorem leads_call (id : Nat) (op : String) (params : Members Json) (taken : Option Text.Bytes) :
    (call id op params).Leads
      [⟨.send (requestLine id op params), Except.ok ()⟩, ⟨.receive (stopsAt id), taken⟩]
      (conclude id op taken) :=
  .request _ (.request _ (.done _))

/-- The line feed in the text is escaped, and the name that came with the parameters gives way. -/
theorem sentLines_call_sampleParams :
    (Json.obj sampleParams).Proper ∧
      ∃ es r, (call 1 "fix" sampleParams).Leads es r ∧
        ∃ (body : String) (members : Members Json), sentLines es = [body ++ "\n"] ∧
          Json.Content.read? body = some (Json.obj members).content ∧
          RequestMembers 1 "fix" sampleParams members ∧
          (∀ c ∈ body.toList, c ≠ '\n' ∧ c ≠ '\r') ∧ IsOneLine (body ++ "\n") := by
  have hproper : (Json.obj sampleParams).Proper :=
    ⟨by decide, trivial, trivial, ⟨List.nodup_nil, trivial⟩, trivial⟩
  have hnone : ∀ c, IsSeparator c →
      c ∉ "fix".toList ∧ ¬ Json.OccursIn c (Json.obj (others sampleParams)).texts := by
    unfold Json.OccursIn
    rintro c (rfl | rfl) <;> decide
  have hleads := leads_call 1 "fix" sampleParams none
  obtain ⟨body, members, hsent, hread, hmembers, hcontrol, hline⟩ :=
    sentLines_call 1 "fix" hproper hleads
  exact ⟨hproper, _, _, hleads, body, members, hsent, hread, hmembers, hcontrol, hline.mpr hnone⟩

/-- Parameters with a separator of lines in a source text. -/
def separatedParams : Members Json := [("text", .str "a\u2028b"), ("config", .obj [])]

/-- A source text with a separator is cut in two by the reader of requests. -/
theorem not_isOneLine_sentLines_separatedParams :
    ∃ es r, (call 1 "fix" separatedParams).Leads es r ∧
      ∃ line ∈ sentLines es, ¬ IsOneLine line := by
  have hleads := leads_call 1 "fix" separatedParams none
  refine ⟨_, _, hleads, requestLine 1 "fix" separatedParams, ?_, ?_⟩
  · rw [sentLines_of_leads_call hleads]
    exact List.mem_singleton_self _
  · rw [requestLine, isOneLine_append, Json.compact, String.toList_ofList]
    intro hnone
    exact hnone '\u2028' (by decide) (.inr (.inr (.inl rfl)))

end LintSetup.Bridge
