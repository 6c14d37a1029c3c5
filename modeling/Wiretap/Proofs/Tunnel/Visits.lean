import Wiretap.Proofs.Tap.Reading
import Wiretap.Proofs.Tunnel.Receive

/-!
# What reads publish

A read from the origin is published in at most one envelope (`fromOrigin_speaks`). It
is told from the state in which the read finds the connection whether there is one
(`Speaks`) and whether it says `done` (`Concludes`), and so of a whole run whether an
envelope that says `done` is the last one (`doneIsLast_iff_settled`).
-/

namespace Wiretap.Tunnel

open Tap

/-- No envelope that says `done` comes before another one. -/
def DoneIsLast (published : List Envelope) : Prop :=
  published.Pairwise fun envelope _ => envelope.isDone = false

theorem doneIsLast_cons {envelope : Envelope} {later : List Envelope} :
    DoneIsLast (envelope :: later) ↔ (envelope.isDone = true → later = []) ∧ DoneIsLast later := by
  rw [DoneIsLast, List.pairwise_cons]
  refine and_congr_left fun _ => ⟨fun h hd => ?_, fun h b hb => ?_⟩
  · refine List.eq_nil_iff_forall_not_mem.mpr fun b hb => ?_
    rw [h b hb] at hd
    cases hd
  · refine Bool.eq_false_iff.mpr fun hd => ?_
    rw [h hd] at hb
    cases hb

namespace Exchange

/-! ## The states that reads find -/

section Visits

variable {σ : Type} {i : Interceptor σ} {e : Exchange σ}

/-- Reads from the origin, each with the connection as it finds it. -/
def visits (i : Interceptor σ) (e : Exchange σ) : List Bytes → List (Exchange σ × Bytes)
  | [] => []
  | chunk :: rest =>
    (e, chunk) :: match e.fromOrigin i chunk with
      | .ok (_, e') => e'.visits i rest
      | .error _ => []

theorem visits_cons {e' : Exchange σ} {chunk : Bytes} {published : List Envelope}
    (h : e.fromOrigin i chunk = .ok (published, e')) (rest : List Bytes) :
    e.visits i (chunk :: rest) = (e, chunk) :: e'.visits i rest := by
  rw [visits, h]

theorem visits_singleton (i : Interceptor σ) (e : Exchange σ) (chunk : Bytes) :
    e.visits i [chunk] = [(e, chunk)] := by
  rw [visits]
  cases e.fromOrigin i chunk <;> rfl

theorem visits_append {e₁ : Exchange σ} {before : List Bytes} {outs : List (List Envelope)}
    (h : e.receive i before = .ok (outs, e₁)) (after : List Bytes) :
    e.visits i (before ++ after) = e.visits i before ++ e₁.visits i after := by
  induction before generalizing e outs with
  | nil => cases h; rfl
  | cons chunk rest ih =>
    obtain ⟨published, e₂, later, hstep, hr, rfl⟩ := receive_cons_ok.mp h
    rw [List.cons_append, visits_cons hstep, visits_cons hstep, ih hr, List.cons_append]

theorem exists_receive_of_mem_visits {chunks : List Bytes} {v : Exchange σ × Bytes}
    (h : v ∈ e.visits i chunks) :
    ∃ before after outs, chunks = before ++ v.2 :: after ∧
      e.receive i before = .ok (outs, v.1) := by
  induction chunks generalizing e with
  | nil => cases h
  | cons chunk rest ih =>
    rw [visits] at h
    rcases List.mem_cons.mp h with rfl | h
    · exact ⟨[], rest, [], rfl, rfl⟩
    · cases hs : e.fromOrigin i chunk with
      | error => rw [hs] at h; cases h
      | ok result =>
        rw [hs] at h
        obtain ⟨before, after, outs, rfl, hr⟩ := ih h
        exact ⟨chunk :: before, after, result.1 :: outs, rfl,
          receive_cons_ok.mpr ⟨_, _, _, hs, hr, rfl⟩⟩

variable {head body : Bytes} {h : Http.ResponseHead}

/-- A read in which no marker comes is kept with all that were. -/
theorem fromOrigin_standing (i : Interceptor σ) (hd : Headed head body h) (hl : e.Listening)
    {chunk : Bytes} (hp : e.response.buffer ++ chunk <+: head ++ body)
    (hm : Response.marked (e.response.buffer ++ chunk) = false) :
    ∃ published e', e.fromOrigin i chunk = .ok (published, e') ∧
      e'.Listening ∧ e'.response.buffer = e.response.buffer ++ chunk := by
  obtain ⟨published, e', reported, hstep, he⟩ :=
    fromOrigin_response i hl.sound chunk (hd.headOf_of_isPrefix hp)
  refine ⟨published, e', hstep, listening_fromOrigin hl hstep, ?_⟩
  rw [he, Response.keep_of_unmarked hm]

theorem receive_standing (i : Interceptor σ) (hd : Headed head body h) (hl : e.Listening)
    {chunks : List Bytes} (hp : e.response.buffer ++ chunks.flatten <+: head ++ body)
    (hm : Response.marked (e.response.buffer ++ chunks.flatten) = false) :
    ∃ outs e', e.receive i chunks = .ok (outs, e') ∧
      e'.Listening ∧ e'.response.buffer = e.response.buffer ++ chunks.flatten := by
  obtain ⟨outs, e', hr, hbuf⟩ := receive_unmarked i hl.sound hm (hd.headOf_of_isPrefix hp)
  exact ⟨outs, e', hr, receive_listening hl hr, hbuf⟩

/-- The last read may bring the marker. -/
theorem receive_ok (i : Interceptor σ) (hd : Headed head body h) (hl : e.Listening)
    {chunks : List Bytes} (hp : e.response.buffer ++ chunks.flatten <+: head ++ body)
    (hm : Response.marked (e.response.buffer ++ chunks.dropLast.flatten) = false) :
    ∃ outs e', e.receive i chunks = .ok (outs, e') := by
  obtain rfl | ⟨before, last, rfl⟩ := List.eq_nil_or_concat' chunks
  · exact ⟨[], e, rfl⟩
  · rw [List.flatten_append, List.flatten_singleton, ← List.append_assoc] at hp
    rw [List.dropLast_concat] at hm
    obtain ⟨outs, e₁, hr, hl₁, hbuf⟩ :=
      receive_standing i hd hl ((List.prefix_append _ _).trans hp) hm
    obtain ⟨published, e', reported, hstep, -⟩ :=
      fromOrigin_response i hl₁.sound last (hd.headOf_of_isPrefix (by rwa [hbuf]))
    exact ⟨_, e', receive_append_ok.mpr ⟨_, _, _, hr,
      receive_cons_ok.mpr ⟨_, _, _, hstep, rfl, rfl⟩, rfl⟩⟩

theorem standing_of_mem_visits (hd : Headed head body h) (hl : e.Listening) {chunks : List Bytes}
    (hp : e.response.buffer ++ chunks.flatten <+: head ++ body)
    (hm : Response.marked (e.response.buffer ++ chunks.dropLast.flatten) = false)
    {v : Exchange σ × Bytes} (hv : v ∈ e.visits i chunks) :
    ∃ before after, chunks = before ++ v.2 :: after ∧ v.1.Listening ∧
      v.1.response.buffer = e.response.buffer ++ before.flatten := by
  obtain ⟨before, after, outs, heq, hr⟩ := exists_receive_of_mem_visits hv
  rw [heq, List.flatten_append, ← List.append_assoc] at hp
  rw [heq, List.dropLast_append_of_ne_nil (List.cons_ne_nil _ _), List.flatten_append,
    ← List.append_assoc] at hm
  obtain ⟨outs', e', hr', hl', hbuf⟩ := receive_standing i hd hl
    ((List.prefix_append _ _).trans hp) (Response.marked_eq_false_of_append hm)
  cases hr.symm.trans hr'
  exact ⟨before, after, heq, hl', hbuf⟩

end Visits

/-! ## What reads publish -/

/-- The read is published: the head is complete, and an error status is news, or else the text
is not too long to wait. -/
def Speaks (e : Exchange Stream) (chunk : Bytes) : Prop :=
  ∃ h, Response.headOf (e.response.buffer ++ chunk) = .ok (some h) ∧
    if h.isError then e.response.head = none
    else ¬ e.state.Overflows
      (Stream.content ((e.response.buffer ++ chunk).drop h.bodyStart) h.headers).1

/-- With the read an error status or a complete body is there. -/
def Concludes (e : Exchange Stream) (chunk : Bytes) : Prop :=
  ∃ h, Response.headOf (e.response.buffer ++ chunk) = .ok (some h) ∧
    (h.isError = true ∨
      (Http.unframe ((e.response.buffer ++ chunk).drop h.bodyStart) h.headers).2 = true)

/-- Behind a read that is published as the last no other one is published. -/
def Settled (visits : List (Exchange Stream × Bytes)) : Prop :=
  visits.Pairwise fun v w => v.1.Speaks v.2 → v.1.Concludes v.2 → ¬ w.1.Speaks w.2

/-- Reads that do not conclude settle nothing. -/
theorem settled_append {vs ws : List (Exchange Stream × Bytes)}
    (h : ∀ v ∈ vs, ¬ v.1.Concludes v.2) : Settled (vs ++ ws) ↔ Settled ws := by
  rw [Settled, List.pairwise_append]
  refine ⟨fun hp => hp.2.1, fun hp => ⟨?_, hp, fun v hv _ _ _ hc => absurd hc (h v hv)⟩⟩
  exact List.pairwise_of_forall_mem_list fun v hv _ _ _ hc => absurd hc (h v hv)

section Runs

variable {e e' : Exchange Stream} (hl : e.Listening) {dumping blocked : Bool}

include hl

/-- One read: at most one envelope, which says whether it is to be the last. -/
theorem fromOrigin_speaks {chunk : Bytes} {published : List Envelope}
    (h : e.fromOrigin (Stream.interceptor dumping blocked) chunk = .ok (published, e')) :
    (e.Speaks chunk ∧ ∃ envelope, published = [envelope] ∧
      (envelope.isDone = true ↔ e.Concludes chunk)) ∨ ¬ e.Speaks chunk ∧ published = [] := by
  rw [fromOrigin_eq_hear _ hl] at h
  unfold Speaks Concludes
  cases hh : Response.headOf (e.response.buffer ++ chunk) with
  | error => rw [hh] at h; cases h
  | ok head =>
    rw [hh] at h
    cases h
    cases head with
    | none => exact .inr ⟨by simp, rfl⟩
    | some h =>
      simp only [Except.ok.injEq, Option.some.injEq, exists_eq_left']
      cases hc : h.isError with
      | true =>
        cases hr : e.response.head with
        | none =>
          left
          refine ⟨by simp, .ofStatus h.status.code h.status.reason, by simp [hear, hc, hr], ?_⟩
          simp [Envelope.ofStatus, Envelope.isDone]
        | some h' => exact .inr ⟨by simp, by simp [hear, hc, hr]⟩
      | false =>
        simp only [Bool.false_eq_true, if_false, false_or]
        by_cases hover : e.state.Overflows
            (Stream.content ((e.response.buffer ++ chunk).drop h.bodyStart) h.headers).1
        · obtain ⟨error, s', hr⟩ := Stream.response_of_overflows hover
          right
          refine ⟨fun hn => hn hover, ?_⟩
          simp [hear, hc, Stream.interceptor, hr]
        · obtain ⟨report, s', hr, hdone⟩ := Stream.response_of_not_overflows hover
          left
          refine ⟨hover, .data e.requested report, ?_, by rw [← hdone]; rfl⟩
          simp [hear, hc, Stream.interceptor, hr]

theorem flatten_eq_nil_iff {chunks : List Bytes} {outs : List (List Envelope)}
    (h : e.receive (Stream.interceptor dumping blocked) chunks = .ok (outs, e')) :
    outs.flatten = [] ↔
      ∀ v ∈ e.visits (Stream.interceptor dumping blocked) chunks, ¬ v.1.Speaks v.2 := by
  induction chunks generalizing e outs with
  | nil => cases h; simp [visits]
  | cons chunk rest ih =>
    obtain ⟨published, e₁, later, hstep, hr, rfl⟩ := receive_cons_ok.mp h
    rw [visits_cons hstep, List.forall_mem_cons, ← ih (listening_fromOrigin hl hstep) hr,
      List.flatten_cons, List.append_eq_nil_iff]
    refine and_congr_left fun _ => ?_
    rcases fromOrigin_speaks hl hstep with ⟨hs, envelope, rfl, -⟩ | ⟨hs, rfl⟩
    · simp [hs]
    · simp [hs]

/-- On every run an envelope that says `done` is the last one exactly if the reads are settled. -/
theorem doneIsLast_iff_settled {chunks : List Bytes} {outs : List (List Envelope)}
    (h : e.receive (Stream.interceptor dumping blocked) chunks = .ok (outs, e')) :
    DoneIsLast outs.flatten ↔ Settled (e.visits (Stream.interceptor dumping blocked) chunks) := by
  induction chunks generalizing e outs with
  | nil => cases h; simp [visits, Settled, DoneIsLast]
  | cons chunk rest ih =>
    obtain ⟨published, e₁, later, hstep, hr, rfl⟩ := receive_cons_ok.mp h
    have hl₁ := listening_fromOrigin hl hstep
    rw [visits_cons hstep, Settled, List.pairwise_cons, ← Settled, ← ih hl₁ hr, List.flatten_cons]
    rcases fromOrigin_speaks hl hstep with ⟨hs, envelope, rfl, hdone⟩ | ⟨hs, rfl⟩
    · rw [List.singleton_append, doneIsLast_cons, hdone, flatten_eq_nil_iff hl₁ hr]
      refine and_congr_left fun _ => ⟨fun hall w hw _ hc => hall hc w hw, fun hall hc w hw => ?_⟩
      exact hall w hw hs hc
    · rw [List.nil_append]
      exact ⟨fun hd => ⟨fun _ _ hs' => absurd hs' hs, hd⟩, fun hd => hd.2⟩

end Runs

end Exchange

end Wiretap.Tunnel
