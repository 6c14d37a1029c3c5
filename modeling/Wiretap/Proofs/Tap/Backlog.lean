import Wiretap.Proofs.Tap.Calls
import Wiretap.Proofs.Tap.Reading
import Wiretap.Proofs.Text.Ascii

/-!
# Text that waits for a frame

What a stream answers to bodies that it is given one after another follows from the parts of their
texts that are unread when they come (`getElem?_responses`). A part that is too long is passed
over with all frames in it and not read again when the text grows; of every other part each frame
is reported (`responses_pending`).
-/

namespace Wiretap.Tap.Stream

/-- The texts of bodies. -/
def texts (bodies : List (Bytes × Http.Headers)) : List Bytes :=
  bodies.map fun (body, headers) => (content body headers).1

/-- The parts of texts that are unread when they come. -/
def pendings (n : Nat) : List Bytes → List Bytes
  | [] => []
  | text :: later => unread n text :: pendings (advance n text) later

/-- What a stream answers to bodies that it is given one after another. -/
def responses (s : Stream) : List (Bytes × Http.Headers) → List (Except Error Report)
  | [] => []
  | (body, headers) :: later =>
    (s.response body headers).1 :: (s.response body headers).2.responses later

/-- What the frames of a text say. -/
def findings (text : Bytes) : List Finding := (scan text).frames.map Finding.ofBytes

/-- The calls in an unread part, if it is not passed over. -/
def heard (pending : Bytes) : List FunctionCall :=
  if maxBacklog < pending.length then [] else (findings pending).filterMap Finding.call?

theorem heard_of_short {pending : Bytes} (h : pending.length ≤ maxBacklog) :
    heard pending = (findings pending).filterMap Finding.call? := if_neg (Nat.not_lt_of_le h)

theorem valid_of_mem_texts {bodies : List (Bytes × Http.Headers)} {text : Bytes}
    (h : text ∈ texts bodies) : Utf8.Valid text := by
  obtain ⟨⟨body, headers⟩, -, rfl⟩ := List.mem_map.mp h
  exact valid_content body headers

/-- The answer that an unread part gets. -/
def answer (known : List FunctionCall) (pending : Bytes) (done : Bool) : Except Error Report :=
  if maxBacklog < pending.length then .error (backlogError pending.length)
  else .ok ⟨String.join ((findings pending).filterMap Finding.reasoning?),
    String.join ((findings pending).filterMap Finding.answer?), (heard pending).foldl addCall known,
    done⟩

/-! ## Answers -/

/-- One call. -/
theorem response_eq (s : Stream) (body : Bytes) (headers : Http.Headers) :
    let pending := unread s.scanned (content body headers).1
    (s.response body headers).1 = answer s.calls pending (Http.unframe body headers).2 ∧
    (s.response body headers).2.scanned = advance s.scanned (content body headers).1 ∧
    (s.response body headers).2.calls = (heard pending).foldl addCall s.calls := by
  intro pending
  by_cases h : s.Overflows (content body headers).1
  · have hlong : maxBacklog < pending.length := h
    rw [response_of_read_error (read_of_overflows h), answer, heard, if_pos hlong, if_pos hlong]
    exact ⟨rfl, rfl, rfl⟩
  · have hshort : ¬ maxBacklog < pending.length := h
    rw [response_of_read (read_of_not_overflows h), answer, heard, if_neg hshort, if_neg hshort,
      gather_eq, dump_scanned, dump_calls]
    exact ⟨rfl, rfl, rfl⟩

/-- A run of calls: each is answered by what is unread then and by what was heard before. -/
theorem getElem?_responses (s : Stream) {bodies : List (Bytes × Http.Headers)} {k : Nat}
    {pending : Bytes} (h : (pendings s.scanned (texts bodies))[k]? = some pending) :
    ∃ done, (s.responses bodies)[k]? = some (answer
      ((((pendings s.scanned (texts bodies)).take k).flatMap heard).foldl addCall s.calls)
      pending done) := by
  induction bodies generalizing s k with
  | nil => cases h
  | cons first later ih =>
    obtain ⟨body, headers⟩ := first
    obtain ⟨hanswer, hscanned, hcalls⟩ := s.response_eq body headers
    rw [texts, List.map_cons, pendings, ← texts] at h ⊢
    rw [responses]
    cases k with
    | zero =>
      cases h
      exact ⟨_, by rw [List.getElem?_cons_zero, hanswer, List.take_zero]; rfl⟩
    | succ k =>
      rw [List.getElem?_cons_succ, ← hscanned] at h
      rw [List.getElem?_cons_succ, List.take_succ_cons, List.flatMap_cons, List.foldl_append,
        ← hcalls, ← hscanned]
      exact ih _ h

theorem getElem?_pendings_succ {n k : Nat} {texts : List Bytes} {pending text next : Bytes}
    (hpending : (pendings n texts)[k]? = some pending) (htext : texts[k]? = some text)
    (hnext : texts[k + 1]? = some next) :
    ∃ n', pending = unread n' text ∧
      (pendings n texts)[k + 1]? = some (unread (advance n' text) next) := by
  induction texts generalizing n k with
  | nil => cases htext
  | cons first later ih =>
    rw [List.getElem?_cons_succ] at hnext
    rw [pendings] at hpending ⊢
    rw [List.getElem?_cons_succ]
    cases k with
    | zero =>
      cases hpending
      cases htext
      obtain ⟨second, later, rfl⟩ := List.exists_cons_of_ne_nil (List.ne_nil_of_mem
        (List.mem_of_getElem? hnext))
      cases hnext
      exact ⟨n, rfl, rfl⟩
    | succ k => exact ih hpending htext hnext

/-! ## What is dropped -/

theorem advance_le (n : Nat) (text : Bytes) : advance n text ≤ text.length := by
  unfold advance
  split
  · exact Nat.le_refl _
  · have hstart := resume_le n text
    have hconsumed := scan_consumed_le (unread n text)
    rw [unread, List.length_drop] at hconsumed
    unfold unread
    omega

theorem drop_advance (n : Nat) (text : Bytes) :
    text.drop (advance n text) =
      if maxBacklog < (unread n text).length then []
      else (unread n text).drop (scan (unread n text)).consumed := by
  unfold advance
  split
  · exact List.drop_length
  · rw [unread, List.drop_drop]

/-- Every unread part is either too long, and is passed over with an error, or all that its frames
say is reported. What a longer text has behind a part that was passed over is all that is unread
then; behind one that was not, what follows its last frame is too. -/
theorem responses_pending (s : Stream) {bodies : List (Bytes × Http.Headers)} {k : Nat}
    {pending : Bytes} (h : (pendings 0 (texts bodies))[k]? = some pending) :
    (maxBacklog < pending.length →
      (s.reset.responses bodies)[k]? = some (.error (backlogError pending.length))) ∧
    (pending.length ≤ maxBacklog → ∃ report, (s.reset.responses bodies)[k]? = some (.ok report) ∧
      report.reason = String.join ((findings pending).filterMap Finding.reasoning?) ∧
      report.body = String.join ((findings pending).filterMap Finding.answer?) ∧
      ∀ call ∈ (findings pending).filterMap Finding.call?,
        ∃ kept ∈ report.function, call.same kept = true) ∧
    ∀ text next, (texts bodies)[k]? = some text → (texts bodies)[k + 1]? = some next →
      text <+: next → ∃ before later, (pendings 0 (texts bodies))[k + 1]? = some later ∧
        next = before ++ later ∧
        text = before ++ if maxBacklog < pending.length then []
          else pending.drop (scan pending).consumed := by
  obtain ⟨done, hresponse⟩ := getElem?_responses s.reset h
  refine ⟨fun hlong => ?_, fun hshort => ?_, fun text next htext hnext hgrow => ?_⟩
  · rw [hresponse, answer, if_pos hlong]
  · rw [answer, if_neg (Nat.not_lt_of_le hshort)] at hresponse
    refine ⟨_, hresponse, rfl, rfl, fun call hcall => ?_⟩
    rw [← heard_of_short hshort] at hcall
    exact exists_same_of_mem hcall
  · obtain ⟨n, rfl, hlater⟩ := getElem?_pendings_succ h htext hnext
    have hresume := resume_advance n hgrow (valid_of_mem_texts (List.mem_of_getElem? htext))
      (valid_of_mem_texts (List.mem_of_getElem? hnext))
    refine ⟨text.take (advance n text), _, hlater, ?_, ?_⟩
    · rw [unread, hresume]
      obtain ⟨t, rfl⟩ := hgrow
      rw [← List.take_append_of_le_length (advance_le n text), List.take_append_drop]
    · rw [← drop_advance, List.take_append_drop]

/-! ## A frame that is dropped -/

theorem content_ascii {body : Bytes} (hascii : ∀ b ∈ body, b < 0x80)
    (hplain : Inflate.isGzip body = false) : (content body ⟨[]⟩).1 = body := by
  have hdecompress : Http.decompress body ⟨[]⟩ = body := by
    have hcoding : Http.coding body ⟨[]⟩ = .plain := if_neg (by rw [hplain]; decide)
    rw [Http.decompress, hcoding]
  exact (congrArg Utf8.validPart hdecompress).trans (Utf8.valid_ascii hascii).validPart_eq

/-- A frame with an answer. -/
def greeting : Bytes := Utf8.encode "[[[null,\"hi\"]],\"model\"]"

/-- As many letters as may wait for a frame. -/
def letters : Bytes := List.replicate maxBacklog 0x78

theorem responses_pending_greeting :
    let bodies := [(greeting, ⟨[]⟩), (greeting ++ [0x78], ⟨[]⟩)]
    (pendings 0 (texts bodies))[0]? = some greeting ∧
    ∃ report, ((fresh false false).reset.responses bodies)[0]? = some (.ok report) ∧
      report.body = "hi" := by
  intro bodies
  have hpending : (pendings 0 (texts bodies))[0]? = some greeting := by decide +kernel
  obtain ⟨-, hread, -⟩ := responses_pending (fresh false false) hpending
  obtain ⟨report, hresponse, -, hbody, -⟩ := hread (by decide +kernel)
  exact ⟨hpending, report, hresponse, hbody.trans (by decide +kernel)⟩

/-- A frame with so much text behind it that the call fails is not reported by the next one. -/
theorem not_reported_greeting :
    let body := greeting ++ letters
    let bodies := [(body, ⟨[]⟩), (body ++ [0x78], ⟨[]⟩)]
    texts bodies = [body, body ++ [0x78]] ∧ greeting ∈ (scan body).frames ∧
    ((fresh false false).reset.responses bodies)[0]? =
      some (.error (backlogError body.length)) ∧
    ∃ report, ((fresh false false).reset.responses bodies)[1]? = some (.ok report) ∧
      report.body = "" := by
  intro body bodies
  have hascii : ∀ b ∈ body ++ [0x78], b < 0x80 := by
    have hletters : ∀ b ∈ letters, b < 0x80 := fun b hb => by
      rw [List.eq_of_mem_replicate hb]
      decide
    have hgreeting : ∀ b ∈ greeting, b < 0x80 := by decide +kernel
    simp only [body, List.forall_mem_append]
    exact ⟨⟨hgreeting, hletters⟩, List.forall_mem_singleton.mpr (by decide)⟩
  have hbody : ∀ b ∈ body, b < 0x80 := fun b hb => hascii b (List.mem_append_left _ hb)
  have htexts : texts bodies = [body, body ++ [0x78]] := by
    simp only [texts, bodies, List.map_cons, List.map_nil,
      content_ascii hbody (by decide +kernel), content_ascii hascii (by decide +kernel)]
  have hlong : maxBacklog < body.length := by
    have hpositive : 0 < greeting.length := by decide +kernel
    rw [List.length_append, letters, List.length_replicate]
    omega
  have hfirst : unread 0 body = body := by rw [unread, resume_zero, List.drop_zero]
  have hsecond : unread body.length (body ++ [0x78]) = [0x78] := by
    rw [unread, resume_length (Utf8.valid_ascii hbody) (Utf8.valid_ascii hascii), List.drop_left]
  have hpendings : pendings 0 (texts bodies) = [body, [0x78]] := by
    rw [htexts, pendings, pendings, pendings, hfirst, advance, hfirst, if_pos hlong, hsecond]
  have hframe : greeting ∈ (scan body).frames := by
    rw [scan_append]
    exact List.mem_append_left _ (by decide +kernel)
  obtain ⟨done, hone⟩ := getElem?_responses (fresh false false).reset
    (show (pendings 0 (texts bodies))[0]? = some body by rw [hpendings]; rfl)
  obtain ⟨done', htwo⟩ := getElem?_responses (fresh false false).reset
    (show (pendings 0 (texts bodies))[1]? = some [0x78] by rw [hpendings]; rfl)
  rw [answer, if_pos hlong] at hone
  rw [answer, if_neg (by decide)] at htwo
  have hnothing : String.join ((findings [0x78]).filterMap Finding.answer?) = "" := by
    decide +kernel
  exact ⟨htexts, hframe, hone, _, htwo, hnothing⟩

end Wiretap.Tap.Stream
