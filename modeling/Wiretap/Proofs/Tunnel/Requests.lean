import Wiretap.Proofs.Tunnel.Fidelity

/-!
# Reads from the client

A read from the client holds no request, or one that is not to be tapped, or one that
is (`fromClient_of_none`, `fromClient_of_other`, `fromClient_of_tapped`). Whatever it
holds, nothing that was gathered of the response plays a part in it
(`fromClient_response`), and a read from the origin leaves what a request has set
(`fromOrigin_frame`). A tapped relay makes one of these two of a read (`step_tapped_ok`),
and what both preserve a run preserves (`run_invariant`). An interceptor that keeps a
list of its calls tells what it was called for (`logged`).
-/

namespace Wiretap

/-- What an interceptor is called for. -/
inductive Call where
  | reset
  | request (body : Bytes) (host path : String)
  | response (body : Bytes) (host path : String) (headers : Http.Headers)
  deriving DecidableEq, Repr

def Call.isResponse : Call → Bool
  | .response .. => true
  | _ => false

/-- An interceptor that also keeps a list of its calls. -/
def Interceptor.logged {σ : Type} (i : Interceptor σ) : Interceptor (σ × List Call) where
  start := (i.start, [])
  reset s := (i.reset s.1, s.2 ++ [.reset])
  request s body host path :=
    let (result, state) := i.request s.1 body host path
    (result, state, s.2 ++ [.request body host path])
  response s body host path headers :=
    let (result, state) := i.response s.1 body host path headers
    (result, state, s.2 ++ [.response body host path headers])

/-- The path of the request that a read holds. -/
def Http.pathIn (chunk : Bytes) : Option String :=
  (Http.headerEnd chunk).bind fun n => Http.requestPath (chunk.take n)

namespace Tunnel

variable {σ : Type}

/-- A read from the client with a request that is to be tapped. -/
def Read.Taps (markers : List String) (r : Read) : Prop :=
  r.side = .client ∧ ∃ path, Http.pathIn r.bytes = some path ∧ Http.hasMarker markers path = true

/-- A request for the path `/ask`. -/
def ask : Read := ⟨.client, Utf8.encode "POST /ask HTTP/1.1\r\n\r\n", 0, .zero⟩

theorem taps_ask : ask.Taps ["/ask"] := ⟨rfl, "/ask", by decide +kernel, by decide +kernel⟩

namespace Exchange

theorem fromClient_of_none (i : Interceptor σ) (e : Exchange σ) (now : Number.Double)
    {chunk : Bytes} (h : Http.pathIn chunk = none) : e.fromClient i now chunk = (chunk, e) := by
  unfold fromClient
  cases hn : Http.headerEnd chunk with
  | none => rfl
  | some n =>
    rw [Http.pathIn, hn] at h
    simp only [show Http.requestPath (chunk.take n) = none from h]

theorem fromClient_of_other (i : Interceptor σ) (e : Exchange σ) (now : Number.Double)
    {chunk : Bytes} {path : String} (h : Http.pathIn chunk = some path)
    (hm : Http.hasMarker e.markers path = false) :
    e.fromClient i now chunk = (chunk, { e with tapping := false }) := by
  obtain ⟨n, hn, hp⟩ := Option.bind_eq_some_iff.mp h
  simp only [fromClient, hn, hp, hm, Bool.false_eq_true, if_false]

theorem fromClient_of_tapped (i : Interceptor σ) (e : Exchange σ) (now : Number.Double)
    {chunk : Bytes} {path : String} (h : Http.pathIn chunk = some path)
    (hm : Http.hasMarker e.markers path = true) :
    ∃ n, Http.headerEnd chunk = some n ∧
      let answer := i.request (i.reset e.state) (chunk.drop n) e.host path
      e.fromClient i now chunk = (chunk.take n ++ answer.1.toOption.getD (chunk.drop n),
        { e with tapping := true, requested := now, state := answer.2 }) := by
  obtain ⟨n, hn, hp⟩ := Option.bind_eq_some_iff.mp h
  refine ⟨n, hn, ?_⟩
  simp only [fromClient, hn, hp, hm, if_true, tap]

/-- What was gathered of the response plays no part in a request. -/
theorem fromClient_response (i : Interceptor σ) (e : Exchange σ) (now : Number.Double)
    (chunk : Bytes) (response : Response) :
    ({ e with response } : Exchange σ).fromClient i now chunk =
      ((e.fromClient i now chunk).1, { (e.fromClient i now chunk).2 with response }) := by
  cases hp : Http.pathIn chunk with
  | none => rw [fromClient_of_none i _ now hp, fromClient_of_none i _ now hp]
  | some path =>
    cases hm : Http.hasMarker e.markers path with
    | false =>
      rw [fromClient_of_other i e now hp hm]
      exact fromClient_of_other i { e with response } now hp hm
    | true =>
      obtain ⟨n, hn, heq⟩ := fromClient_of_tapped i e now hp hm
      obtain ⟨n', hn', heq'⟩ := fromClient_of_tapped i { e with response } now hp hm
      cases hn.symm.trans hn'
      rw [heq, heq']

theorem observe_frame (i : Interceptor σ) (e : Exchange σ) :
    ∃ state response, (e.observe i).2 = { e with state, response } ∧
      (state = e.state ∨
        ∃ body headers, state = (i.response e.state body e.host "" headers).2) := by
  unfold observe
  split
  · exact ⟨_, _, rfl, .inl rfl⟩
  · split
    · split <;> exact ⟨_, _, rfl, .inl rfl⟩
    · simp only
      split <;> rename_i heq <;> exact ⟨_, _, rfl, .inr ⟨_, _, congrArg Prod.snd heq.symm⟩⟩

/-- A read from the origin leaves what a request has set, but for what the interceptor makes
of its state. -/
theorem fromOrigin_frame {i : Interceptor σ} {e e' : Exchange σ} {chunk : Bytes}
    {published : List Envelope} (h : e.fromOrigin i chunk = .ok (published, e')) :
    ∃ state response, e' = { e with state, response } ∧
      (state = e.state ∨
        ∃ body headers, state = (i.response e.state body e.host "" headers).2) := by
  unfold fromOrigin at h
  cases ha : e.response.append chunk with
  | error => rw [ha] at h; cases h
  | ok response =>
    obtain ⟨state', response', hobs, hstate⟩ := observe_frame i { e with response }
    simp only [ha, Except.ok.injEq, Prod.mk.injEq] at h
    rw [← h.2]
    by_cases ht : e.tapping = true
    · simp only [if_pos ht, hobs]
      split <;> exact ⟨_, _, rfl, hstate⟩
    · simp only [if_neg ht]
      split <;> exact ⟨_, _, rfl, .inl rfl⟩

end Exchange

/-- What a tapped relay makes of a read that it does not crash at. -/
inductive Passes (i : Interceptor σ) (e : Exchange σ) (r : Read) : Output → Exchange σ → Prop
  | client (side : r.side = .client) :
      Passes i e r ⟨[], (e.fromClient i r.time r.bytes).1, []⟩ (e.fromClient i r.time r.bytes).2
  | origin {published : List Envelope} {e' : Exchange σ} (side : r.side = .origin)
      (observed : e.fromOrigin i r.bytes = .ok (published, e')) :
      Passes i e r ⟨r.bytes, [], published⟩ e'

theorem step_tapped_ok {i : Interceptor σ} {clock : Clock} {e : Exchange σ} {r : Read}
    {told : Output} {t : Tunnel σ} :
    (⟨clock, .tapped e⟩ : Tunnel σ).step i r = .ok (told, t) ↔
      ∃ d e', clock.deadline = .ok d ∧ Passes i e r told e' ∧
        t = ⟨clock.touch r.moment, .tapped e'⟩ := by
  constructor
  · intro h
    cases hd : clock.deadline with
    | error crash => rw [step_of_late hd] at h; cases h
    | ok d =>
      cases hr : r.side with
      | client =>
        rw [step_client hd i e hr] at h
        cases h
        exact ⟨d, _, rfl, .client hr, rfl⟩
      | origin =>
        rw [step_origin hd i e hr] at h
        cases ho : e.fromOrigin i r.bytes with
        | error => rw [ho] at h; cases h
        | ok result =>
          rw [ho] at h
          cases h
          exact ⟨d, _, rfl, .origin hr ho, rfl⟩
  · rintro ⟨d, e', hd, hpass, rfl⟩
    cases hpass with
    | client side => exact step_client hd i e side
    | origin side observed =>
      rw [step_origin hd i e side, observed]
      rfl

/-- A tapped relay stays one. -/
theorem exists_of_run_tapped {i : Interceptor σ} {clock : Clock} {e : Exchange σ}
    {reads : List Read} {out : Output} {t : Tunnel σ}
    (h : (⟨clock, .tapped e⟩ : Tunnel σ).run i reads = .ok (out, t)) :
    ∃ now e', t = ⟨now, .tapped e'⟩ := by
  induction reads generalizing clock e out with
  | nil => cases h; exact ⟨_, _, rfl⟩
  | cons r rest ih =>
    obtain ⟨out₁, t₁, out₂, hs, hr, rfl⟩ := run_cons_ok.mp h
    obtain ⟨d, e₁, -, -, rfl⟩ := step_tapped_ok.mp hs
    exact ih hr

/-- A run that succeeds, of a tapped connection, leaves one. -/
theorem exists_of_isOk (i : Interceptor σ) (host : String) (markers : List String)
    (clock : Clock) (reads : List Read)
    (h : ((tappedTunnel i host markers clock).run i reads).isOk = true) :
    ∃ out now e,
      (tappedTunnel i host markers clock).run i reads = .ok (out, ⟨now, .tapped e⟩) := by
  cases hrun : (tappedTunnel i host markers clock).run i reads with
  | error crash => rw [hrun] at h; cases h
  | ok result =>
    obtain ⟨out, t⟩ := result
    obtain ⟨now, e, rfl⟩ := exists_of_run_tapped hrun
    exact ⟨out, now, e, rfl⟩

/-- What reads from either side preserve a run preserves. -/
theorem run_invariant {i : Interceptor σ} {P : Exchange σ → Prop}
    (hclient : ∀ {e : Exchange σ} (now : Number.Double) (chunk : Bytes), P e →
      P (e.fromClient i now chunk).2)
    (horigin : ∀ {e e' : Exchange σ} {chunk : Bytes} {published : List Envelope}, P e →
      e.fromOrigin i chunk = .ok (published, e') → P e')
    {clock now : Clock} {e e' : Exchange σ} {reads : List Read} {out : Output} (hp : P e)
    (h : (⟨clock, .tapped e⟩ : Tunnel σ).run i reads = .ok (out, ⟨now, .tapped e'⟩)) : P e' := by
  induction reads generalizing clock e out with
  | nil => cases h; exact hp
  | cons r rest ih =>
    obtain ⟨out₁, t₁, out₂, hs, hr, rfl⟩ := run_cons_ok.mp h
    obtain ⟨d, e₁, -, hpass, rfl⟩ := step_tapped_ok.mp hs
    cases hpass with
    | client side => exact ih (hclient r.time r.bytes hp) hr
    | origin side observed => exact ih (horigin hp observed) hr

end Tunnel

end Wiretap
