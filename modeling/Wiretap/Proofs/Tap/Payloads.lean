import Wiretap.Proofs.Json.Doubles
import Wiretap.Proofs.Tap.Calls
import Wiretap.Proofs.Tap.Reading
import Wiretap.Proofs.Tap.Woven
import Wiretap.Proofs.Text.Encoded

/-!
# Payloads that come as frames

A payload is printed as a frame on one line (`isFrame_bytes`), and what the frame says is what the
payload says, with its numbers as they are read (`ofBytes_bytes`). The frames of several payloads
say, in order, their answer texts, their reasoning texts and the calls they ask for, each once
(`gather_bytes`).
-/

namespace Wiretap.Tap

/-- What a frame carries: null, a second item, and what further items there are. -/
structure Payload where
  second : Json
  further : List Json

namespace Payload

def items (p : Payload) : List Json := .null :: p.second :: p.further

/-- The frame that a payload comes in. -/
def frame (p : Payload) : Json := .arr [.arr [.arr p.items], .str "model"]

def bytes (p : Payload) : Bytes := Utf8.encode p.frame.text

/-- The answer text in a payload of two items. -/
def answer? : Payload → Option String
  | ⟨.str s, []⟩ => some s
  | _ => none

/-- The reasoning text in a payload of more items. -/
def reasoning? : Payload → Option String
  | ⟨.str s, _ :: _⟩ => some s
  | _ => none

/-- The name and the arguments, still encoded, in a list that begins with a name. -/
def requestIn? : Json → Option (String × Json)
  | .arr (.str name :: args) => some (name, args.head?.getD .null)
  | _ => none

/-- What is asked for in the last of eleven items, the second of which is null. -/
def request? (p : Payload) : Option (String × Json) :=
  if p.second.isNull && p.items.length == 11 then p.further.getLast?.bind requestIn? else none

/-- The call that is asked for by a name and encoded arguments. -/
def call (request : String × Json) : FunctionCall := ⟨request.1, .obj (arguments request.2)⟩

/-- The payload with its numbers as they are read. -/
def reread (p : Payload) : Payload := ⟨p.second.reread, Json.rereadItems p.further⟩

/-- A payload that can be printed and read: its numbers are valid, the members of its objects are in
order, its frame does not nest too deep, and nothing in the frame closes it before its end. -/
structure Proper (p : Payload) : Prop where
  numbers : p.frame.Numbers Json.Number.Valid
  ordered : p.frame.Ordered
  depth : p.frame.depth ≤ Json.maxDepth
  once : ¬ closing <:+: (p.bytes.drop opening.length).dropLast

instance (p : Payload) : Decidable p.Proper :=
  decidable_of_iff
    (p.frame.Numbers Json.Number.Valid ∧ p.frame.Ordered ∧ p.frame.depth ≤ Json.maxDepth ∧
      ¬ closing <:+: (p.bytes.drop opening.length).dropLast)
    ⟨fun ⟨h₁, h₂, h₃, h₄⟩ => ⟨h₁, h₂, h₃, h₄⟩, fun h => ⟨h.numbers, h.ordered, h.depth, h.once⟩⟩

/-! ## The frame of a payload -/

theorem chars_frame (p : Payload) :
    Json.chars p.frame = "[[[null,".toList ++
      (Json.chars p.second ++ Json.moreItemChars p.further) ++ "]],\"model\"]".toList := by
  simp [frame, items, Json.chars, Json.itemChars, Json.moreItemChars, Json.quoted, Json.escapeChar]

theorem bytes_eq (p : Payload) :
    p.bytes = opening ++
      (Utf8.encodeChars (Json.chars p.second ++ Json.moreItemChars p.further) ++ closing) := by
  have hopening : Utf8.encodeChars "[[[null,".toList = opening := by decide
  have hclosing : Utf8.encodeChars "]],\"model\"]".toList = closing := by decide
  rw [bytes, Utf8.encode, Json.text, String.toList_ofList, chars_frame, ← hopening, ← hclosing]
  simp [Utf8.encodeChars]

theorem Proper.isFrame_bytes {p : Payload} (h : p.Proper) : IsFrame p.bytes where
  opens := by
    rw [bytes_eq]
    exact List.prefix_append _ _
  closes := by
    rw [bytes_eq, List.drop_left]
    exact List.suffix_append _ _
  once := h.once
  line := Utf8.lf_notMem_encode (by
    rw [Json.text, String.toList_ofList]
    exact Json.lf_notMem_chars p.frame)

theorem Proper.ofBytes_bytes {p : Payload} (h : p.Proper) :
    Finding.ofBytes p.bytes = .ofPayload p.reread.items := by
  have hparse : Json.parseChars p.frame.text.toList = some p.frame.reread := by
    rw [Json.text, String.toList_ofList]
    exact Json.parseChars_chars (h.numbers.imp fun _ => Json.Number.Valid.accepted) h.ordered
      h.depth
  rw [Finding.ofBytes, bytes, Utf8.decode?_encode, Option.bind_some, hparse]
  rfl

theorem answer?_reread (p : Payload) : p.reread.answer? = p.answer? := by
  obtain ⟨second, further⟩ := p
  cases second <;> cases further <;> rfl

theorem reasoning?_reread (p : Payload) : p.reread.reasoning? = p.reasoning? := by
  obtain ⟨second, further⟩ := p
  cases second <;> cases further <;> rfl

theorem requestIn?_reread (v : Json) :
    requestIn? v.reread = (requestIn? v).map (Prod.map id Json.reread) := by
  cases v with
  | arr items =>
    rcases items with _ | ⟨first, rest⟩
    · rfl
    · cases first <;> cases rest <;> rfl
  | _ => rfl

theorem request?_reread (p : Payload) :
    p.reread.request? = p.request?.map (Prod.map id Json.reread) := by
  have hnull : p.second.reread.isNull = p.second.isNull := by cases p.second <;> rfl
  have hlength : p.reread.items.length = p.items.length := by
    simp [items, reread, Json.rereadItems_eq_map]
  unfold request?
  rw [hlength, reread]
  simp only [hnull, Json.rereadItems_eq_map, List.getLast?_map]
  split
  · rw [Option.bind_map, Option.map_bind]
    exact congrArg _ (funext requestIn?_reread)
  · rfl

/-! ## What a payload says -/

theorem ofPayload_str (s : String) (further : List Json) :
    Finding.ofPayload (.null :: .str s :: further) =
      if further.isEmpty then .answer s else .reasoning s := by
  cases further <;> simp [Finding.ofPayload, Finding.ofText]

theorem ofPayload_null (further : List Json) :
    Finding.ofPayload (.null :: .null :: further) =
      if further.length = 9 then
        ((further.getLast?.bind requestIn?).map fun r => Finding.call (call r)).getD .nothing
      else .nothing := by
  split
  · rename_i hlength
    match further, hlength with
    | [_, _, _, _, _, _, _, _, last], _ =>
      cases last with
      | arr items =>
        rcases items with _ | ⟨first, args⟩
        · rfl
        · cases first <;> rfl
      | _ => rfl
  · rename_i hlength
    unfold Finding.ofPayload
    split
    all_goals try rename_i heq; cases heq
    · rfl
    · exact absurd rfl hlength
    · rfl
    · rfl

theorem ofPayload_other {v : Json} (hs : v.isString = false) (hn : v.isNull = false)
    (further : List Json) : Finding.ofPayload (.null :: v :: further) = .nothing := by
  cases v with
  | null => cases hn
  | str s => cases hs
  | _ => cases further <;> simp [Finding.ofPayload, Finding.ofText]

end Payload

namespace Stream

open Payload

theorem says_ofPayload (p : Payload) :
    (Finding.ofPayload p.items).reasoning? = p.reasoning? ∧
    (Finding.ofPayload p.items).answer? = p.answer? ∧
    (Finding.ofPayload p.items).call? = p.request?.map call := by
  obtain ⟨second, further⟩ := p
  cases second with
  | str s =>
    rw [items, ofPayload_str]
    cases further <;> simp [Finding.reasoning?, Finding.answer?, Finding.call?, answer?,
      reasoning?, request?, Json.isNull]
  | null =>
    have hrequest : request? ⟨.null, further⟩ =
        if further.length = 9 then further.getLast?.bind requestIn? else none := by
      simp [request?, items, Json.isNull]
    rw [items, ofPayload_null, hrequest]
    split
    · cases further.getLast?.bind requestIn? <;> simp [Finding.reasoning?, Finding.answer?,
        Finding.call?, answer?, reasoning?]
    · simp [Finding.reasoning?, Finding.answer?, Finding.call?, answer?, reasoning?]
  | _ =>
    rw [items, ofPayload_other rfl rfl]
    cases further <;> simp [Finding.reasoning?, Finding.answer?, Finding.call?, answer?,
      reasoning?, request?, Json.isNull]

/-- What the frames of payloads say; the arguments of calls have their numbers as they are read. -/
theorem gather_bytes {payloads : List Payload} (h : ∀ p ∈ payloads, p.Proper) :
    gather [] (payloads.map Payload.bytes) =
      ⟨String.join (payloads.filterMap reasoning?), String.join (payloads.filterMap answer?),
        ((payloads.filterMap request?).map fun (name, args) => call (name, args.reread)).eraseDupsBy
          FunctionCall.same⟩ := by
  have hfindings : (payloads.map Payload.bytes).map Finding.ofBytes =
      (payloads.map reread).map fun p => Finding.ofPayload p.items := by
    rw [List.map_map, List.map_map]
    refine List.map_congr_left fun p hp => ?_
    rw [Function.comp_apply, (h p hp).ofBytes_bytes, Function.comp_apply]
  simp only [gather_eq, hfindings, List.filterMap_map, Function.comp_def, says_ofPayload,
    reasoning?_reread, answer?_reread, request?_reread, Option.map_map, foldl_addCall,
    List.map_filterMap]
  rfl

end Stream

end Wiretap.Tap
