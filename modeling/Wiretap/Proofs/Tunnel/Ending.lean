import Wiretap.Proofs.Tap.Content
import Wiretap.Proofs.Tunnel.Segments
import Wiretap.Proofs.Tunnel.Visits

/-!
# The last envelope of a response

An envelope that says `done` is to be the last one of its response. Whether it is
depends on where the reads end (`doneIsLast_iff`): a chunked body is complete behind
the line that ends its chunks, but it is forgotten only at the empty line behind it,
and each read that comes between is reported as complete once more.
-/

namespace Wiretap.Tunnel

open Tap

/-- A response: its head, the bytes with which its body becomes complete, and those behind them. -/
structure Delivered (head full rest : Bytes) (h : Http.ResponseHead) : Prop
    extends Headed head (full ++ rest) h where
  closes : Http.Closes h.headers full

/-- How much of a response has to come until it is known to be over: its head if that gives an
error status, else all that makes its body complete. -/
def due (head full : Bytes) (h : Http.ResponseHead) : Nat :=
  if h.isError then head.length else (head ++ full).length

namespace Exchange

section

variable {head full rest : Bytes} {h : Http.ResponseHead} (d : Delivered head full rest h)
  {e : Exchange Stream}

include d

theorem due_pos : 0 < due head full h := by
  have hpos := List.length_pos_iff.mpr d.head_ne_nil
  rw [due, List.length_append]
  split <;> omega

theorem concludes_iff {chunk : Bytes}
    (hp : e.response.buffer ++ chunk <+: head ++ (full ++ rest)) :
    e.Concludes chunk ↔ due head full h ≤ (e.response.buffer ++ chunk).length := by
  have hbody : (e.response.buffer ++ chunk).drop head.length <+: full ++ rest := by
    have := hp.drop head.length
    rwa [List.drop_left] at this
  have hdone := Http.unframe_done_iff d.closes hbody
  rw [List.length_drop] at hdone
  rw [Concludes, d.headOf_of_isPrefix hp, due]
  simp only [Except.ok.injEq, List.length_append] at hdone ⊢
  by_cases hle : head.length ≤ e.response.buffer.length + chunk.length
  · simp only [if_pos hle, Option.some.injEq, exists_eq_left']
    rw [Response.bodyStart_of_parse d.parses, hdone]
    cases h.isError with
    | true => simpa using hle
    | false =>
      simp only [Bool.false_eq_true, false_or, if_false]
      omega
  · simp only [if_neg hle, false_and, exists_false, false_iff, reduceCtorEq]
    split <;> omega

/-- Reads that do not bring what is due conclude nothing. -/
theorem not_concludes_of_mem_visits (hl : e.Listening) {dumping blocked : Bool}
    {chunks : List Bytes} (hp : e.response.buffer ++ chunks.flatten <+: head ++ (full ++ rest))
    (hm : Response.marked (e.response.buffer ++ chunks.flatten) = false)
    (hlt : (e.response.buffer ++ chunks.flatten).length < due head full h) :
    ∀ v ∈ e.visits (Stream.interceptor dumping blocked) chunks, ¬ v.1.Concludes v.2 := by
  intro v hv
  have hm' : Response.marked (e.response.buffer ++ chunks.dropLast.flatten) = false := by
    obtain ⟨t, ht⟩ := ( List.dropLast_prefix chunks).flatten
    rw [← ht, ← List.append_assoc] at hm
    exact Response.marked_eq_false_of_append hm
  obtain ⟨before, after, rfl, -, hbuf⟩ := standing_of_mem_visits d.toHeaded hl hp hm' hv
  rw [List.flatten_append, List.flatten_cons, ← List.append_assoc, ← List.append_assoc] at hp
  rw [concludes_iff d (by rw [hbuf]; exact (List.prefix_append _ _).trans hp), hbuf]
  simp only [List.length_append, List.flatten_append, List.flatten_cons] at hlt ⊢
  omega

/-! ### Error statuses -/

/-- An error status is published once. -/
theorem not_speaks_of_isError (herr : h.isError = true) (hl : e.Listening) {chunk : Bytes}
    (hp : e.response.buffer ++ chunk <+: head ++ (full ++ rest))
    (hle : head.length ≤ e.response.buffer.length) : ¬ e.Speaks chunk := by
  rintro ⟨h', hh', hspeaks⟩
  have hhead := hl.sound.head
  rw [d.headOf_of_le ((List.prefix_append _ _).trans hp) hle] at hhead
  rw [d.headOf_of_le hp (by rw [List.length_append]; omega)] at hh'
  cases hh'
  rw [if_pos herr, ← Except.ok.inj hhead] at hspeaks
  cases hspeaks

theorem settled_of_isError (herr : h.isError = true) (hl : e.Listening) {chunk : Bytes}
    {after : List Bytes}
    (hp : e.response.buffer ++ (chunk :: after).flatten <+: head ++ (full ++ rest))
    (hle : head.length ≤ (e.response.buffer ++ chunk).length)
    (hm : Response.marked (e.response.buffer ++ (chunk :: after).dropLast.flatten) = false)
    (dumping blocked : Bool) :
    Settled (e.visits (Stream.interceptor dumping blocked) (chunk :: after)) := by
  rcases after with _ | ⟨next, later⟩
  · simp [visits_singleton, Settled]
  rw [List.flatten_cons, ← List.append_assoc] at hp
  rw [List.dropLast_cons_cons, List.flatten_cons, ← List.append_assoc] at hm
  obtain ⟨published, e', hstep, hl', hbuf⟩ :=
    fromOrigin_standing (Stream.interceptor dumping blocked) d.toHeaded hl
      ((List.prefix_append _ _).trans hp) (Response.marked_eq_false_of_append hm)
  rw [← hbuf] at hp hm hle
  have hsilent : ∀ w ∈ e'.visits (Stream.interceptor dumping blocked) (next :: later),
      ¬ w.1.Speaks w.2 := by
    intro w hw
    obtain ⟨before, after, heq, hlw, hbufw⟩ := standing_of_mem_visits d.toHeaded hl' hp hm hw
    refine not_speaks_of_isError d herr hlw ?_ ?_
    · rw [heq, List.flatten_append, List.flatten_cons, ← List.append_assoc, ← List.append_assoc,
        ← hbufw] at hp
      exact (List.prefix_append _ _).trans hp
    · rw [hbufw, List.length_append]
      omega
  rw [visits_cons hstep, Settled, List.pairwise_cons]
  exact ⟨fun w hw _ _ => hsilent w hw,
    List.pairwise_of_forall_mem_list fun v hv w hw _ _ => hsilent w hw⟩

/-! ### Complete bodies -/

theorem headOf_of_complete {seen : Bytes} (hp : seen <+: head ++ (full ++ rest))
    (hle : (head ++ full).length ≤ seen.length) : Response.headOf seen = .ok (some h) :=
  d.headOf_of_le hp (by rw [List.length_append] at hle; omega)

theorem content_of_complete {seen : Bytes} (hp : seen <+: head ++ (full ++ rest))
    (hle : (head ++ full).length ≤ seen.length) :
    Stream.content (seen.drop h.bodyStart) h.headers = Stream.content full h.headers := by
  rw [← List.append_assoc] at hp
  obtain ⟨q, rfl⟩ := List.prefix_of_prefix_length_le (List.prefix_append _ _) hp hle
  rw [Response.bodyStart_of_parse d.parses, List.append_assoc, List.drop_left]
  exact Stream.content_append_of_done
    (Http.unframe_of_complete (List.append_nil full ▸ Http.complete_of_closes d.closes [])) q

/-- The text of a complete body is published unless it is too long to wait. -/
theorem speaks_of_complete (hh : h.isError = false) {chunk : Bytes}
    (hp : e.response.buffer ++ chunk <+: head ++ (full ++ rest))
    (hle : (head ++ full).length ≤ (e.response.buffer ++ chunk).length)
    (hn : ¬ e.state.Overflows (Stream.content full h.headers).1) : e.Speaks chunk := by
  refine ⟨h, headOf_of_complete d hp hle, ?_⟩
  rw [if_neg (by rw [hh]; decide), content_of_complete d hp hle]
  exact hn

/-- Having been read once, it does not have to wait. -/
theorem not_overflows_of_complete (hh : h.isError = false) (hl : e.Listening) {chunk : Bytes}
    (hp : e.response.buffer ++ chunk <+: head ++ (full ++ rest))
    (hle : (head ++ full).length ≤ (e.response.buffer ++ chunk).length)
    {dumping blocked : Bool} {published : List Envelope} {e' : Exchange Stream}
    (hstep : e.fromOrigin (Stream.interceptor dumping blocked) chunk = .ok (published, e')) :
    ¬ e'.state.Overflows (Stream.content full h.headers).1 := by
  rw [fromOrigin_of_headOf _ hl rfl (headOf_of_complete d hp hle)] at hstep
  cases hstep
  rw [hear_state hh, ← content_of_complete d hp hle]
  exact Stream.not_overflows_response _ _ _

/-- The read behind one with which the body is complete is published in any case. -/
theorem fromOrigin_of_complete (hh : h.isError = false) (hl : e.Listening) {chunk next : Bytes}
    (hp : e.response.buffer ++ chunk ++ next <+: head ++ (full ++ rest))
    (hle : (head ++ full).length ≤ (e.response.buffer ++ chunk).length)
    (hm : Response.marked (e.response.buffer ++ chunk) = false) (dumping blocked : Bool) :
    ∃ published e', e.fromOrigin (Stream.interceptor dumping blocked) chunk = .ok (published, e') ∧
      e'.Listening ∧ e'.response.buffer = e.response.buffer ++ chunk ∧ e'.Speaks next := by
  have hp₁ := (List.prefix_append _ _).trans hp
  obtain ⟨published, e', hstep, hl', hbuf⟩ :=
    fromOrigin_standing (Stream.interceptor dumping blocked) d.toHeaded hl hp₁ hm
  refine ⟨published, e', hstep, hl', hbuf, ?_⟩
  have hn := not_overflows_of_complete d hh hl hp₁ hle hstep
  rw [← hbuf] at hp hle
  exact speaks_of_complete d hh hp (hle.trans (List.prefix_append _ _).length_le) hn

theorem not_settled_of_speaks (hh : h.isError = false) (hl : e.Listening) {chunk next : Bytes}
    (hp : e.response.buffer ++ chunk ++ next <+: head ++ (full ++ rest))
    (hle : (head ++ full).length ≤ (e.response.buffer ++ chunk).length)
    (hm : Response.marked (e.response.buffer ++ chunk) = false) (hs : e.Speaks chunk)
    (later : List Bytes) (dumping blocked : Bool) :
    ¬ Settled (e.visits (Stream.interceptor dumping blocked) (chunk :: next :: later)) := by
  obtain ⟨published, e', hstep, -, -, hnext⟩ :=
    fromOrigin_of_complete d hh hl hp hle hm dumping blocked
  have hc := (concludes_iff d ((List.prefix_append _ _).trans hp)).mpr
    (by rwa [due, if_neg (by rw [hh]; decide)])
  rw [visits_cons hstep, visits]
  intro hsettled
  exact (List.pairwise_cons.mp hsettled).1 _ List.mem_cons_self hs hc hnext

/-- Of a complete body each read is published, but perhaps the first one. -/
theorem settled_iff (hh : h.isError = false) (hl : e.Listening) {chunk : Bytes}
    {after : List Bytes}
    (hp : e.response.buffer ++ (chunk :: after).flatten <+: head ++ (full ++ rest))
    (hle : (head ++ full).length ≤ (e.response.buffer ++ chunk).length)
    (hm : Response.marked (e.response.buffer ++ (chunk :: after).dropLast.flatten) = false)
    (dumping blocked : Bool) :
    Settled (e.visits (Stream.interceptor dumping blocked) (chunk :: after)) ↔
      after = [] ∨ ¬ e.Speaks chunk ∧ after.length = 1 := by
  rcases after with _ | ⟨next, later⟩
  · simp [visits_singleton, Settled]
  rw [List.flatten_cons, List.flatten_cons, ← List.append_assoc, ← List.append_assoc] at hp
  rw [List.dropLast_cons_cons, List.flatten_cons, ← List.append_assoc] at hm
  have hm₁ := Response.marked_eq_false_of_append hm
  have hp₁ := (List.prefix_append _ _).trans hp
  obtain ⟨published, e', hstep, hl', hbuf, hnext⟩ :=
    fromOrigin_of_complete d hh hl hp₁ hle hm₁ dumping blocked
  constructor
  · intro hsettled
    right
    refine ⟨fun hs => not_settled_of_speaks d hh hl hp₁ hle hm₁ hs later _ _ hsettled, ?_⟩
    rcases later with _ | ⟨third, later⟩
    · rfl
    -- the second read is published in any case, and so is the third
    rw [visits_cons hstep] at hsettled
    rw [List.flatten_cons, ← List.append_assoc, ← hbuf] at hp
    rw [List.dropLast_cons_cons, List.flatten_cons, ← List.append_assoc, ← hbuf] at hm
    have hle' : (head ++ full).length ≤ (e'.response.buffer ++ next).length := by
      rw [hbuf]
      exact hle.trans (List.prefix_append _ _).length_le
    exact absurd (List.pairwise_cons.mp hsettled).2 (not_settled_of_speaks d hh hl'
      ((List.prefix_append _ _).trans hp) hle' (Response.marked_eq_false_of_append hm) hnext
      later _ _)
  · rintro (hnil | ⟨hs, hone⟩)
    · cases hnil
    · cases later with
      | nil => simp [visits_cons hstep, visits_singleton, Settled, hs]
      | cons third later => simp at hone

/-! ### All reads of a response -/

theorem settled_split_iff (hl : e.Listening) {before after : List Bytes} {chunk : Bytes}
    (hp : e.response.buffer ++ (before ++ chunk :: after).flatten <+: head ++ (full ++ rest))
    (hm : Response.marked
      (e.response.buffer ++ (before ++ chunk :: after).dropLast.flatten) = false)
    (hlt : (e.response.buffer ++ before.flatten).length < due head full h)
    (hle : due head full h ≤ (e.response.buffer ++ before.flatten ++ chunk).length)
    (dumping blocked : Bool) :
    ∃ outs e₁, e.receive (Stream.interceptor dumping blocked) before = .ok (outs, e₁) ∧
      (Settled (e.visits (Stream.interceptor dumping blocked) (before ++ chunk :: after)) ↔
        h.isError = true ∨ after = [] ∨ ¬ e₁.Speaks chunk ∧ after.length = 1) := by
  rw [List.flatten_append, ← List.append_assoc] at hp
  rw [List.dropLast_append_of_ne_nil (List.cons_ne_nil _ _), List.flatten_append,
    ← List.append_assoc] at hm
  have hp₁ := (List.prefix_append _ _).trans hp
  have hm₁ := Response.marked_eq_false_of_append hm
  obtain ⟨outs, e₁, hr, hl₁, hbuf₁⟩ :=
    receive_standing (Stream.interceptor dumping blocked) d.toHeaded hl hp₁ hm₁
  refine ⟨outs, e₁, hr, ?_⟩
  rw [visits_append hr, settled_append (not_concludes_of_mem_visits d hl hp₁ hm₁ hlt)]
  rw [← hbuf₁] at hp hm hle
  cases herr : h.isError with
  | true =>
    rw [due, if_pos herr] at hle
    exact iff_of_true (settled_of_isError d herr hl₁ hp hle hm dumping blocked) (.inl rfl)
  | false =>
    rw [due, if_neg (by rw [herr]; decide)] at hle
    simpa using settled_iff d herr hl₁ hp hle hm dumping blocked

/-- Whatever the reads, an envelope that says `done` is the last one exactly if they are settled.
While the marker that ends a chunked body does not come before the last read, they are so exactly
if the status is an error, or the read with which the body becomes complete is the last one, or
it is passed over as too long and one more follows. -/
theorem doneIsLast_iff (ht : e.tapping = true) (hf : e.response = .fresh) {chunks : List Bytes}
    (hall : chunks.flatten = head ++ (full ++ rest)) (dumping blocked : Bool) :
    (∀ outs e', e.receive (Stream.interceptor dumping blocked) chunks = .ok (outs, e') →
      (DoneIsLast outs.flatten ↔ Settled (e.visits (Stream.interceptor dumping blocked) chunks))) ∧
    (¬ Http.lastChunk <:+: chunks.dropLast.flatten →
      ∃ before chunk after outs₁ e₁ outs e', chunks = before ++ chunk :: after ∧
        before.flatten.length < due head full h ∧
        due head full h ≤ (before.flatten ++ chunk).length ∧
        e.receive (Stream.interceptor dumping blocked) before = .ok (outs₁, e₁) ∧
        e.receive (Stream.interceptor dumping blocked) chunks = .ok (outs, e') ∧
        (DoneIsLast outs.flatten ↔
          h.isError = true ∨ after = [] ∨ ¬ e₁.Speaks chunk ∧ after.length = 1)) := by
  have hl := listening_of_fresh ht hf
  have hbuf : e.response.buffer = [] := by rw [hf]; rfl
  refine ⟨fun outs e' hr => doneIsLast_iff_settled hl hr, fun hu => ?_⟩
  have hp : e.response.buffer ++ chunks.flatten <+: head ++ (full ++ rest) := by
    rw [hbuf, hall]
    exact List.prefix_rfl
  have hm : Response.marked (e.response.buffer ++ chunks.dropLast.flatten) = false := by
    rw [hbuf]
    exact Response.marked_eq_false_iff.mpr hu
  obtain ⟨outs, e', hr⟩ := receive_ok (Stream.interceptor dumping blocked) d.toHeaded hl hp hm
  have hdue : due head full h ≤ chunks.flatten.length := by
    rw [hall, due, List.length_append, List.length_append, List.length_append]
    split <;> omega
  obtain ⟨before, chunk, after, rfl, hlt, hle⟩ := exists_read (due_pos d) hdue
  obtain ⟨outs₁, e₁, hr₁, hiff⟩ := settled_split_iff d hl hp hm (by rwa [hbuf])
    (by rwa [hbuf, List.nil_append, List.length_append]) dumping blocked
  refine ⟨before, chunk, after, outs₁, e₁, outs, e', rfl, hlt, ?_, hr₁, hr, ?_⟩
  · rwa [List.length_append]
  · rw [doneIsLast_iff_settled hl hr, hiff]

end

/-- A response with one frame, cut before the empty line that ends it. -/
def cutReads : List Bytes := [oneFrame.1 ++ oneFrame.2.take 32, oneFrame.2.drop 32]

theorem delivered_oneFrame :
    Delivered oneFrame.1 (oneFrame.2.take 32) (oneFrame.2.drop 32) oneFrameHead where
  ends := by decide +kernel
  parses := by decide +kernel
  closes := by
    have hline : Http.IsSizeLine (Utf8.encode "17") 23 :=
      Http.isSizeLine_of_digits (by decide +kernel) (by decide +kernel)
    have hlast : Http.IsSizeLine (Utf8.encode "0") 0 :=
      Http.isSizeLine_of_digits (by decide +kernel) (by decide +kernel)
    have heq : oneFrame.2.take 32 =
        [(⟨Utf8.encode "17", Utf8.encode "[[[null,\"hi\"]],\"model\"]"⟩ : Http.Written)].flatMap
          Http.Written.bytes ++ (Utf8.encode "0" ++ Bytes.crlf) := by decide +kernel
    rw [heq]
    exact .chunked (by decide +kernel) _
      (List.forall_mem_singleton.mpr ⟨hline, by decide +kernel, by decide +kernel⟩) _ hlast

theorem doneIsLast_iff_cutReads :
    Delivered oneFrame.1 (oneFrame.2.take 32) (oneFrame.2.drop 32) oneFrameHead ∧
    tappedOnce.tapping = true ∧ tappedOnce.response = .fresh ∧
    cutReads.flatten = oneFrame.1 ++ (oneFrame.2.take 32 ++ oneFrame.2.drop 32) ∧
    (∀ outs e', tappedOnce.receive (Stream.interceptor false false) cutReads = .ok (outs, e') →
      (DoneIsLast outs.flatten ↔
        Settled (tappedOnce.visits (Stream.interceptor false false) cutReads))) ∧
    (¬ Http.lastChunk <:+: cutReads.dropLast.flatten →
      ∃ before chunk after outs₁ e₁ outs e', cutReads = before ++ chunk :: after ∧
        before.flatten.length < due oneFrame.1 (oneFrame.2.take 32) oneFrameHead ∧
        due oneFrame.1 (oneFrame.2.take 32) oneFrameHead ≤ (before.flatten ++ chunk).length ∧
        tappedOnce.receive (Stream.interceptor false false) before = .ok (outs₁, e₁) ∧
        tappedOnce.receive (Stream.interceptor false false) cutReads = .ok (outs, e') ∧
        (DoneIsLast outs.flatten ↔
          oneFrameHead.isError = true ∨ after = [] ∨ ¬ e₁.Speaks chunk ∧ after.length = 1)) := by
  have hall : cutReads.flatten = oneFrame.1 ++ (oneFrame.2.take 32 ++ oneFrame.2.drop 32) := by
    decide +kernel
  exact ⟨delivered_oneFrame, rfl, rfl, hall,
    doneIsLast_iff delivered_oneFrame rfl rfl hall false false⟩

/-- Both reads are published as the last. -/
theorem not_doneIsLast_cutReads :
    ∃ outs e', tappedOnce.receive (Stream.interceptor false false) cutReads = .ok (outs, e') ∧
      outs.flatten.map Envelope.isDone = [true, true] ∧ ¬ DoneIsLast outs.flatten := by
  have hflags : (tappedOnce.receive (Stream.interceptor false false) cutReads).toOption.map
      (fun r => r.1.flatten.map Envelope.isDone) = some [true, true] := by decide +kernel
  rcases hr : tappedOnce.receive (Stream.interceptor false false) cutReads with crash | ⟨outs, e'⟩
  · rw [hr] at hflags
    cases hflags
  · rw [hr] at hflags
    have hdone : outs.flatten.map Envelope.isDone = [true, true] := Option.some.inj hflags
    refine ⟨outs, e', rfl, hdone, fun hlast => ?_⟩
    have hpair : (outs.flatten.map Envelope.isDone).Pairwise fun done _ => done = false :=
      List.pairwise_map.mpr hlast
    rw [hdone] at hpair
    simp at hpair

end Exchange

end Wiretap.Tunnel
