import Wiretap.Command.Run
import Wiretap.Proofs.Http.Heads
import Wiretap.Proofs.Json.Printed
import Wiretap.Proofs.Text.Encoded

/-!
# What is published is read back

The output of a run that serves is its messages, each with a line feed behind it. No message has a
line feed of its own, so the lines of the output are the messages, and a consumer that reads every
line gets what was published, in order (`lines_read`): the signal that connections are accepted,
and each envelope as the same kind with the same contents (`parse_text`).
-/

namespace Wiretap

namespace Envelope

/-! ## Envelopes -/

/-- The time and the arguments of calls are read back; arguments have their members in order and
nest no deeper, inside the envelope, than the parser allows. A status is a word of 16 bits. -/
def Legible : Envelope → Prop
  | .data ts report =>
    Json.Number.Readable (.double ts) ∧
    (∀ call ∈ report.function, call.params.Legible ∧ call.params.Ordered) ∧
    (Envelope.data ts report).toJson.depth ≤ Json.maxDepth
  | .error _ status _ _ => status ≤ Number.word16

instance : (e : Envelope) → Decidable e.Legible
  | .data _ _ => inferInstanceAs (Decidable (_ ∧ _ ∧ _))
  | .error _ status _ _ => inferInstanceAs (Decidable (status ≤ Number.word16))

theorem callOf_toJson {call : FunctionCall} (h : call.params.Ordered) :
    callOf call.toJson = some call := by
  have hfields : recordOf ["name", "params"] call.toJson = some [.str call.name, call.params] := rfl
  rw [callOf, hfields]
  simp only [Json.canonical_of_ordered h]

theorem mapM_callOf {calls : List FunctionCall} (h : ∀ call ∈ calls, call.params.Ordered) :
    (calls.map FunctionCall.toJson).mapM callOf = some calls := by
  induction calls with
  | nil => rfl
  | cons call calls ih =>
    rw [List.forall_mem_cons] at h
    rw [List.map_cons, List.mapM_cons, callOf_toJson h.1, ih h.2]
    rfl

theorem reportOf_toJson {r : Report} (h : ∀ call ∈ r.function, call.params.Ordered) :
    reportOf r.toJson = some r := by
  have hfields : recordOf ["reason", "body", "function", "done"] r.toJson =
      some [.str r.reason, .str r.body, .arr (r.function.map FunctionCall.toJson), .bool r.done] :=
    rfl
  rw [reportOf, hfields]
  simp only [mapM_callOf h, Option.map_some]

/-- An envelope is read from its own members, as data before as an error. -/
theorem ofJson_toJson {e : Envelope} (h : e.Legible) : ofJson e.toJson = some e := by
  cases e with
  | data ts report =>
    have hfields : membersNamed ["ts", "data"] [("ts", .num (.double ts)), ("data", report.toJson)] =
        some [.num (.double ts), report.toJson] := rfl
    have hreport := reportOf_toJson fun call hcall => (h.2.1 call hcall).2
    rw [toJson, ofJson, dataOf, hfields]
    simp only [Json.double?, hreport, Option.some_or]
  | error error status message done =>
    have hstatus : (Json.ofNat status).nat? = some status := by
      simp [Json.ofNat, Json.nat?]
    have hnone : dataOf [("error", .bool error), ("status", .ofNat status), ("message", .str message),
        ("done", .bool done)] = none := rfl
    have hfields : membersNamed ["error", "status", "message", "done"]
        [("error", .bool error), ("status", .ofNat status), ("message", .str message),
          ("done", .bool done)] =
        some [.bool error, .ofNat status, .str message, .bool done] := rfl
    rw [toJson, ofJson, hnone, Option.none_or, errorOf, hfields]
    simp only [hstatus, if_pos (show status ≤ Number.word16 from h)]

theorem toJson_legible {e : Envelope} (h : e.Legible) : e.toJson.Legible := by
  cases e with
  | data ts report =>
    have hcalls (calls : List FunctionCall) (hall : ∀ call ∈ calls, call.params.Legible) :
        Json.LegibleItems (calls.map FunctionCall.toJson) := by
      induction calls with
      | nil => trivial
      | cons call calls ih =>
        rw [List.forall_mem_cons] at hall
        exact ⟨⟨trivial, hall.1, trivial⟩, ih hall.2⟩
    exact ⟨h.1, ⟨trivial, trivial, hcalls _ fun call hcall => (h.2.1 call hcall).1, trivial, trivial⟩,
      trivial⟩
  | error error status message done =>
    have hfits : Json.Fits (status : Int) := by
      have : status ≤ Number.word16 := h
      unfold Number.word16 at this
      exact ⟨by omega, by unfold Number.word64; omega⟩
    exact ⟨trivial, hfits, trivial, trivial, trivial⟩

theorem toJson_depth {e : Envelope} (h : e.Legible) : e.toJson.depth ≤ Json.maxDepth := by
  cases e with
  | data ts report => exact h.2.2
  | error error status message done => exact (by decide : 1 ≤ Json.maxDepth)

theorem parse_text {e : Envelope} (h : e.Legible) : parse e.text = some e := by
  rw [parse, text, Json.read_text (toJson_legible h) (toJson_depth h), Option.bind_some,
    ofJson_toJson h]

theorem text_ne_ready (e : Envelope) : e.text ≠ ready := by
  intro heq
  obtain ⟨rest, hrest⟩ : ∃ rest, Json.chars e.toJson = '\x7b' :: rest := by
    cases e <;> exact ⟨_, rfl⟩
  have hchars := congrArg String.toList heq
  rw [text, Json.text, String.toList_ofList, hrest] at hchars
  exact absurd (List.cons.inj hchars).1 (by decide)

end Envelope

/-! ## Lines -/

/-- What is published: the signal that connections are accepted, or an envelope. -/
inductive Notice where
  | ready
  | envelope (e : Envelope)

namespace Notice

/-- What a consumer gets of a notice. -/
def sent (o : Outbox) : Notice → List String
  | ready => o.ready
  | envelope e => o.publish e

/-- What a consumer reads in a line of the output. -/
def ofLine (line : Bytes) : Option Notice :=
  (Utf8.text? line).bind fun message =>
    if message = Wiretap.ready then some ready else (Envelope.parse message).map envelope

def text : Notice → String
  | ready => Wiretap.ready
  | envelope e => e.text

theorem sent_attached (notices : List Notice) :
    notices.flatMap (sent .attached) = notices.map text := by
  induction notices with
  | nil => rfl
  | cons notice notices ih =>
    rw [List.flatMap_cons, ih]
    cases notice <;> rfl

theorem lf_notMem_text (notice : Notice) : '\n' ∉ notice.text.toList := by
  cases notice with
  | ready => decide
  | envelope e =>
    rw [text, Envelope.text, Json.text, String.toList_ofList]
    exact Json.lf_notMem_chars e.toJson

theorem ofLine_text {notice : Notice} (h : ∀ e, notice = envelope e → e.Legible) :
    ofLine (Utf8.encode notice.text) = some notice := by
  rw [ofLine, Utf8.text?_encode, Option.bind_some]
  cases notice with
  | ready => rfl
  | envelope e =>
    rw [text, if_neg e.text_ne_ready, Envelope.parse_text (h e rfl)]
    rfl

end Notice

theorem splitOn_output {messages : List String} (h : ∀ m ∈ messages, '\n' ∉ m.toList) :
    Bytes.splitOn Bytes.lf (Utf8.encode (Command.Ending.served messages).output) =
      messages.map Utf8.encode ++ [[]] := by
  induction messages with
  | nil => simp [Command.Ending.output, Utf8.encode, Utf8.encodeChars, Bytes.splitOn]
  | cons m messages ih =>
    rw [List.forall_mem_cons] at h
    have houtput : Utf8.encode (Command.Ending.served (m :: messages)).output =
        Utf8.encode m ++ Bytes.lf :: Utf8.encode (Command.Ending.served messages).output := by
      have hlf : Utf8.encodeChar '\n' = [Bytes.lf] := rfl
      simp [Command.Ending.output, Utf8.encode, Utf8.encodeChars, hlf]
    rw [houtput, Bytes.splitOn_append (Utf8.lf_notMem_encode h.1), ih h.2]
    rfl

/-- The lines of the output are what was sent, and they are read as what was published. -/
theorem lines_read (notices : List Notice) (h : ∀ e, .envelope e ∈ notices → Envelope.Legible e) :
    let messages := notices.flatMap (Notice.sent .attached)
    let output := Utf8.encode (Command.Ending.served messages).output
    Bytes.splitOn Bytes.lf output = messages.map Utf8.encode ++ [[]] ∧
    (messages.map Utf8.encode).map Notice.ofLine = notices.map some := by
  intro messages output
  have hmessages : messages = notices.map Notice.text := Notice.sent_attached notices
  constructor
  · refine splitOn_output fun m hm => ?_
    rw [hmessages] at hm
    obtain ⟨notice, -, rfl⟩ := List.mem_map.mp hm
    exact notice.lf_notMem_text
  · rw [hmessages, List.map_map, List.map_map]
    refine List.map_congr_left fun notice hnotice => ?_
    exact Notice.ofLine_text fun e he => h e (he ▸ hnotice)

theorem lines_read_mixed :
    let params := Json.obj
      [("a\"b", .arr [.ofInt (-9223372036854775808), .ofInt 18446744073709551615, .null]),
        ("c\\", .obj [("", .str "\n\r\t\x01é")])]
    let report : Report := ⟨"first\nsecond", "\"quoted\" \\ \x7f", [⟨"f", params⟩], false⟩
    let notices := [.ready, .envelope (.data ⟨false, Number.Double.ofNat 3 / 2⟩ report), .ready,
      .envelope (.error true 429 "429 Too Many\nRequests" true)]
    let messages := notices.flatMap (Notice.sent .attached)
    let output := Utf8.encode (Command.Ending.served messages).output
    Bytes.splitOn Bytes.lf output = messages.map Utf8.encode ++ [[]] ∧
    (messages.map Utf8.encode).map Notice.ofLine = notices.map some := by
  intro params report notices
  refine lines_read notices fun e he => ?_
  simp only [notices, List.mem_cons, List.not_mem_nil, or_false, reduceCtorEq, false_or,
    Notice.envelope.injEq] at he
  rcases he with rfl | rfl
  · decide +kernel
  · decide

end Wiretap
