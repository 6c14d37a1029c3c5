import Wiretap.Proofs.Tunnel.Requests
import Wiretap.Proofs.Tunnel.Segments

/-!
# A tap that is as good as new

What a tap does of its reads does not depend on when a request was read nor on the texts
that have been saved: without them (`bare`) it sends the same, and publishes the same but
for the times (`run_alike`). Two resets give back all the rest, the one of the response at
its last chunk and the one of the interceptor at a tapped request, so behind them a
connection that has been in use is a new one (`run_renewed`).
-/

namespace Wiretap

/-- Two results that look the same are two crashes or two successes. -/
theorem cases_of_map_eq_map {α β : Type} {f : α → β} {x y : Except Crash α}
    (h : x.map f = y.map f) :
    (∃ crash, x = .error crash ∧ y = .error crash) ∨
      ∃ a b, x = .ok a ∧ y = .ok b ∧ f a = f b := by
  cases x with
  | error crash =>
    cases y with
    | error => cases h; exact .inl ⟨crash, rfl, rfl⟩
    | ok => cases h
  | ok a =>
    cases y with
    | error => cases h
    | ok b => exact .inr ⟨a, b, rfl, rfl, Except.ok.inj h⟩

/-- Without the time of its request. -/
def Envelope.untimed : Envelope → Envelope
  | data _ report => .data .zero report
  | e => e

namespace Tap.Stream

/-- Without the texts in the log directory. -/
def unsaved (s : Stream) : Stream := { s with saved := [] }

theorem read_unsaved (s : Stream) (text : Bytes) :
    s.unsaved.read text = Prod.map id unsaved (s.read text) := by
  unfold read
  simp only [unsaved]
  rw [apply_ite (Prod.map id unsaved)]
  rfl

theorem dump_unsaved (s : Stream) (text : Bytes) (done : Bool) :
    (s.unsaved.dump text done).unsaved = (s.dump text done).unsaved := by
  unfold dump
  rw [apply_ite unsaved, apply_ite unsaved]
  rfl

theorem response_unsaved (s : Stream) (body : Bytes) (headers : Http.Headers) :
    Prod.map id unsaved (s.unsaved.response body headers) =
      Prod.map id unsaved (s.response body headers) := by
  unfold response
  simp only [read_unsaved]
  obtain ⟨error | g, s'⟩ := s.read (content body headers).1
  · rfl
  · exact congrArg (Prod.mk _) (dump_unsaved s' _ _)

/-- What an interceptor is set up with stays. -/
theorem response_settings (s : Stream) (body : Bytes) (headers : Http.Headers) :
    (s.response body headers).2.dumping = s.dumping ∧
      (s.response body headers).2.blocked = s.blocked := by
  unfold response read dump
  simp only
  split <;> rename_i h <;> split at h <;> cases h
  · exact ⟨rfl, rfl⟩
  · simp only
    split <;> exact ⟨rfl, rfl⟩

end Tap.Stream

namespace Tunnel

open Tap (Stream)

variable {dumping blocked : Bool} {host : String} {markers : List String}

namespace Exchange

/-- Without the time of the request and the texts that have been saved. -/
def bare (e : Exchange Stream) : Exchange Stream :=
  { e with requested := .zero, state := e.state.unsaved }

theorem fromClient_bare (dumping blocked : Bool) (e : Exchange Stream) (now now' : Number.Double)
    (chunk : Bytes) :
    Prod.map id bare (e.bare.fromClient (Stream.interceptor dumping blocked) now' chunk) =
      Prod.map id bare (e.fromClient (Stream.interceptor dumping blocked) now chunk) := by
  cases hp : Http.pathIn chunk with
  | none =>
    rw [fromClient_of_none _ _ _ hp, fromClient_of_none _ _ _ hp]
    rfl
  | some path =>
    cases hm : Http.hasMarker e.markers path with
    | false =>
      have hm' : Http.hasMarker e.bare.markers path = false := hm
      rw [fromClient_of_other _ e now hp hm, fromClient_of_other _ e.bare now' hp hm']
      rfl
    | true =>
      obtain ⟨n, hn, heq⟩ :=
        fromClient_of_tapped (Stream.interceptor dumping blocked) e now hp hm
      obtain ⟨n', hn', heq'⟩ :=
        fromClient_of_tapped (Stream.interceptor dumping blocked) e.bare now' hp hm
      cases hn.symm.trans hn'
      rw [heq, heq']
      rfl

theorem observe_bare (dumping blocked : Bool) (e : Exchange Stream) :
    Prod.map (List.map Envelope.untimed) bare
        (e.bare.observe (Stream.interceptor dumping blocked)) =
      Prod.map (List.map Envelope.untimed) bare
        (e.observe (Stream.interceptor dumping blocked)) := by
  unfold observe
  cases hh : e.response.head with
  | none => simp only [bare, hh]; rfl
  | some head =>
    simp only [bare, hh]
    split
    · split <;> rfl
    · generalize e.response.buffer.drop head.bodyStart = body
      have hr := Stream.response_unsaved e.state body head.headers
      simp only [Stream.interceptor] at hr ⊢
      generalize e.state.response body head.headers = told at hr ⊢
      generalize e.state.unsaved.response body head.headers = told' at hr ⊢
      obtain ⟨result, s⟩ := told
      obtain ⟨result', s'⟩ := told'
      obtain ⟨rfl, hs⟩ := Prod.mk.inj hr
      cases result' <;> simp [Envelope.untimed, bare, hs]

theorem emptied_bare {e e' : Exchange Stream} (h : e'.bare = e.bare) (n : Nat) :
    (if e'.response.ends n then { e' with response := .fresh } else e').bare =
      (if e.response.ends n then { e with response := .fresh } else e).bare := by
  have hresp : e'.bare.response = e.bare.response := by rw [h]
  rw [show e'.response = e.response from hresp]
  split
  · exact congrArg (fun e : Exchange Stream => { e with response := .fresh }) h
  · exact h

theorem fromOrigin_bare (dumping blocked : Bool) (e : Exchange Stream) (chunk : Bytes) :
    (e.bare.fromOrigin (Stream.interceptor dumping blocked) chunk).map
        (Prod.map (List.map Envelope.untimed) bare) =
      (e.fromOrigin (Stream.interceptor dumping blocked) chunk).map
        (Prod.map (List.map Envelope.untimed) bare) := by
  unfold fromOrigin
  rw [show e.bare.response = e.response from rfl]
  cases e.response.append chunk with
  | error => rfl
  | ok response =>
    have hobs := observe_bare dumping blocked { e with response }
    have htold : Prod.map (List.map Envelope.untimed) bare
        (if e.bare.tapping then
          ({ e.bare with response } : Exchange Stream).observe (Stream.interceptor dumping blocked)
          else ([], { e.bare with response })) =
        Prod.map (List.map Envelope.untimed) bare
        (if e.tapping then
          ({ e with response } : Exchange Stream).observe (Stream.interceptor dumping blocked)
          else ([], { e with response })) := by
      rw [apply_ite (Prod.map _ bare), apply_ite (Prod.map _ bare)]
      exact congrArg (fun told => if e.tapping then told else ([], ({ e with response }).bare)) hobs
    obtain ⟨hpublished, hbare⟩ := Prod.mk.inj htold
    exact congrArg Except.ok (Prod.ext hpublished (emptied_bare hbare chunk.length))

end Exchange

/-- At no time. -/
def Read.untimed (r : Read) : Read := { r with time := .zero }

def Output.untimed (out : Output) : Output :=
  { out with published := out.published.map Envelope.untimed }

def bare : Tunnel Stream → Tunnel Stream
  | ⟨clock, .tapped e⟩ => ⟨clock, .tapped e.bare⟩
  | ⟨clock, .blind⟩ => ⟨clock, .blind⟩

theorem untimed_append (a b : Output) : (a ++ b).untimed = a.untimed ++ b.untimed := by
  change (Output.append a b).untimed = Output.append a.untimed b.untimed
  simp [Output.append, Output.untimed]

theorem step_client_alike (clock : Clock) {e e' : Exchange Stream} {r r' : Read}
    (hr : r.side = .client) (hread : r.untimed = r'.untimed)
    (h : Prod.map id Exchange.bare
        (e.fromClient (Stream.interceptor dumping blocked) r.time r.bytes) =
      Prod.map id Exchange.bare
        (e'.fromClient (Stream.interceptor dumping blocked) r'.time r.bytes)) :
    ((⟨clock, .tapped e⟩ : Tunnel Stream).step (Stream.interceptor dumping blocked) r).map
        (Prod.map Output.untimed bare) =
      ((⟨clock, .tapped e'⟩ : Tunnel Stream).step (Stream.interceptor dumping blocked) r').map
        (Prod.map Output.untimed bare) := by
  obtain ⟨side, bytes, moment, time⟩ := r
  obtain ⟨side', bytes', moment', time'⟩ := r'
  cases hr
  cases hread
  cases hd : clock.deadline with
  | error crash => rw [step_of_late hd, step_of_late hd]
  | ok d =>
    rw [step_client hd _ e rfl, step_client hd _ e' rfl]
    simp only at h ⊢
    generalize e.fromClient (Stream.interceptor dumping blocked) time bytes = told at h ⊢
    generalize e'.fromClient (Stream.interceptor dumping blocked) time' bytes = told' at h ⊢
    obtain ⟨sent, e₁⟩ := told
    obtain ⟨sent', e₁'⟩ := told'
    obtain ⟨rfl, hbare⟩ := Prod.mk.inj h
    simp only [Except.map, Prod.map, bare, hbare, id]

theorem step_origin_alike (clock : Clock) {e e' : Exchange Stream} {r r' : Read}
    (hr : r.side = .origin) (hread : r.untimed = r'.untimed)
    (h : (e.fromOrigin (Stream.interceptor dumping blocked) r.bytes).map
        (Prod.map (List.map Envelope.untimed) Exchange.bare) =
      (e'.fromOrigin (Stream.interceptor dumping blocked) r.bytes).map
        (Prod.map (List.map Envelope.untimed) Exchange.bare)) :
    ((⟨clock, .tapped e⟩ : Tunnel Stream).step (Stream.interceptor dumping blocked) r).map
        (Prod.map Output.untimed bare) =
      ((⟨clock, .tapped e'⟩ : Tunnel Stream).step (Stream.interceptor dumping blocked) r').map
        (Prod.map Output.untimed bare) := by
  obtain ⟨side, bytes, moment, time⟩ := r
  obtain ⟨side', bytes', moment', time'⟩ := r'
  cases hr
  cases hread
  cases hd : clock.deadline with
  | error crash => rw [step_of_late hd, step_of_late hd]
  | ok d =>
    rw [step_origin hd _ e rfl, step_origin hd _ e' rfl]
    rcases cases_of_map_eq_map h with
      ⟨crash, h₁, h₂⟩ | ⟨⟨published, e₁⟩, ⟨published', e₁'⟩, h₁, h₂, h⟩
    · rw [h₁, h₂]
    · obtain ⟨hpublished, hbare⟩ := Prod.mk.inj h
      rw [h₁, h₂]
      simp only [Except.map, Prod.map, bare, hbare, Output.untimed, hpublished]

/-- One read: tunnels that are alike do alike. -/
theorem step_alike (dumping blocked : Bool) {t t' : Tunnel Stream} (h : t.bare = t'.bare)
    {r r' : Read} (hread : r.untimed = r'.untimed) :
    (t.step (Stream.interceptor dumping blocked) r).map (Prod.map Output.untimed bare) =
      (t'.step (Stream.interceptor dumping blocked) r').map
        (Prod.map Output.untimed bare) := by
  obtain ⟨clock, _ | e⟩ := t <;> obtain ⟨clock', _ | e'⟩ := t'
  · cases h
    obtain ⟨side, bytes, moment, time⟩ := r
    obtain ⟨side', bytes', moment', time'⟩ := r'
    cases hread
    cases side <;> rfl
  · cases h
  · cases h
  · obtain ⟨rfl, hrelay⟩ := Tunnel.mk.inj h
    have hbare := Relay.tapped.inj hrelay
    cases hr : r.side with
    | client =>
      refine step_client_alike clock hr hread ?_
      rw [← Exchange.fromClient_bare _ _ e r.time .zero,
        ← Exchange.fromClient_bare _ _ e' r'.time .zero, hbare]
    | origin =>
      refine step_origin_alike clock hr hread ?_
      rw [← Exchange.fromOrigin_bare, ← Exchange.fromOrigin_bare _ _ e', hbare]

/-- Runs are alike if their first reads are, and then what follows. -/
theorem run_cons_alike {t t' : Tunnel Stream} {r r' : Read} {rest rest' : List Read}
    (hstep : (t.step (Stream.interceptor dumping blocked) r).map (Prod.map Output.untimed bare) =
      (t'.step (Stream.interceptor dumping blocked) r').map (Prod.map Output.untimed bare))
    (hrest : ∀ {t₁ t₁' : Tunnel Stream}, t₁.bare = t₁'.bare →
      (t₁.run (Stream.interceptor dumping blocked) rest).map (Prod.map Output.untimed bare) =
        (t₁'.run (Stream.interceptor dumping blocked) rest').map
          (Prod.map Output.untimed bare)) :
    (t.run (Stream.interceptor dumping blocked) (r :: rest)).map (Prod.map Output.untimed bare) =
      (t'.run (Stream.interceptor dumping blocked) (r' :: rest')).map
        (Prod.map Output.untimed bare) := by
  rw [run_cons, run_cons]
  rcases cases_of_map_eq_map hstep with
    ⟨crash, h₁, h₂⟩ | ⟨⟨out, t₁⟩, ⟨out', t₁'⟩, h₁, h₂, hsame⟩
  · rw [h₁, h₂]
  obtain ⟨hout, ht⟩ := Prod.mk.inj hsame
  simp only [h₁, h₂]
  rcases cases_of_map_eq_map (hrest ht) with
    ⟨crash, h₃, h₄⟩ | ⟨⟨more, t₂⟩, ⟨more', t₂'⟩, h₃, h₄, hsame⟩
  · rw [h₃, h₄]
    rfl
  · obtain ⟨hmore, ht₂⟩ := Prod.mk.inj hsame
    rw [h₃, h₄]
    simp only [Except.map, Prod.map, untimed_append, hout, hmore, ht₂]

/-- Every run: tunnels that are alike do alike. -/
theorem run_alike (dumping blocked : Bool) {t t' : Tunnel Stream} (h : t.bare = t'.bare)
    {reads reads' : List Read} (hreads : reads.map Read.untimed = reads'.map Read.untimed) :
    (t.run (Stream.interceptor dumping blocked) reads).map (Prod.map Output.untimed bare) =
      (t'.run (Stream.interceptor dumping blocked) reads').map
        (Prod.map Output.untimed bare) := by
  induction reads generalizing t t' reads' with
  | nil =>
    cases List.map_eq_nil_iff.mp hreads.symm
    exact congrArg (fun t => Except.ok (Output.none, t)) h
  | cons r rest ih =>
    obtain ⟨r', rest', rfl, hr, hrest⟩ := List.map_eq_cons_iff.mp hreads.symm
    exact run_cons_alike (step_alike dumping blocked h hr.symm) fun ht => ih ht hrest.symm

/-! ## After a request -/

namespace Exchange

/-- What a connection's tap was set up with. -/
structure SetUp (dumping blocked : Bool) (host : String) (markers : List String)
    (e : Exchange Stream) : Prop where
  host : e.host = host
  markers : e.markers = markers
  dumping : e.state.dumping = dumping
  blocked : e.state.blocked = blocked

theorem setUp_fresh (dumping blocked : Bool) (host : String) (markers : List String) :
    SetUp dumping blocked host markers
      (.fresh (Stream.interceptor dumping blocked) host markers) :=
  ⟨rfl, rfl, rfl, rfl⟩

theorem setUp_fromClient {e : Exchange Stream} (hs : e.SetUp dumping blocked host markers)
    (now : Number.Double) (chunk : Bytes) :
    (e.fromClient (Stream.interceptor dumping blocked) now chunk).2.SetUp
      dumping blocked host markers := by
  cases hp : Http.pathIn chunk with
  | none => rwa [fromClient_of_none _ e now hp]
  | some path =>
    cases hm : Http.hasMarker e.markers path with
    | false =>
      rw [fromClient_of_other _ e now hp hm]
      exact ⟨hs.host, hs.markers, hs.dumping, hs.blocked⟩
    | true =>
      obtain ⟨n, -, heq⟩ := fromClient_of_tapped (Stream.interceptor dumping blocked) e now hp hm
      rw [heq]
      exact ⟨hs.host, hs.markers, hs.dumping, hs.blocked⟩

theorem setUp_fromOrigin {e e' : Exchange Stream} (hs : e.SetUp dumping blocked host markers)
    {chunk : Bytes} {published : List Envelope}
    (h : e.fromOrigin (Stream.interceptor dumping blocked) chunk = .ok (published, e')) :
    e'.SetUp dumping blocked host markers := by
  obtain ⟨state, response, rfl, rfl | ⟨body, headers, rfl⟩⟩ := fromOrigin_frame h
  · exact ⟨hs.host, hs.markers, hs.dumping, hs.blocked⟩
  · obtain ⟨hdumping, hblocked⟩ := Stream.response_settings e.state body headers
    exact ⟨hs.host, hs.markers, hdumping.trans hs.dumping, hblocked.trans hs.blocked⟩

/-- A tapped request resets all but what was gathered of the response. -/
theorem SetUp.fromClient_bare {e : Exchange Stream} (hs : e.SetUp dumping blocked host markers)
    (now now' : Number.Double) {r : Read} (hr : r.Taps markers) :
    Prod.map id bare (e.fromClient (Stream.interceptor dumping blocked) now r.bytes) =
      Prod.map id bare
        ({ fresh (Stream.interceptor dumping blocked) host markers with
          response := e.response }.fromClient
          (Stream.interceptor dumping blocked) now' r.bytes) := by
  obtain ⟨-, path, hp, hm⟩ := hr
  obtain ⟨n, hn, heq⟩ := fromClient_of_tapped (Stream.interceptor dumping blocked) e now hp
    (hs.markers ▸ hm)
  obtain ⟨n', hn', heq'⟩ := fromClient_of_tapped (Stream.interceptor dumping blocked)
    { fresh (Stream.interceptor dumping blocked) host markers with response := e.response }
    now' hp hm
  cases hn.symm.trans hn'
  rw [heq, heq']
  simp only [Stream.interceptor, fresh, bare, Stream.reset, Stream.unsaved, Stream.fresh,
    Prod.map, id, hs.host, hs.markers, hs.dumping, hs.blocked]

end Exchange

/-- From a tapped request on, all that counts is what was gathered of the response. -/
theorem run_of_setUp {e : Exchange Stream} (hs : e.SetUp dumping blocked host markers)
    (clock : Clock) {request : Read} (htaps : request.Taps markers) {later reads : List Read}
    (hreads : (request :: later).map Read.untimed = reads.map Read.untimed) :
    ((⟨clock, .tapped e⟩ : Tunnel Stream).run (Stream.interceptor dumping blocked)
        (request :: later)).map (Prod.map Output.untimed bare) =
      ((⟨clock, .tapped { Exchange.fresh (Stream.interceptor dumping blocked) host markers with
        response := e.response }⟩ : Tunnel Stream).run
        (Stream.interceptor dumping blocked) reads).map (Prod.map Output.untimed bare) := by
  obtain ⟨request', later', rfl, hrequest, hlater⟩ := List.map_eq_cons_iff.mp hreads.symm
  exact run_cons_alike
    (step_client_alike clock htaps.1 hrequest.symm
      (hs.fromClient_bare request.time request'.time htaps))
    fun ht => run_alike dumping blocked ht hlater.symm

theorem setUp_run {clock now : Clock} {reads : List Read} {out : Output} {e : Exchange Stream}
    (h : (tappedTunnel (Stream.interceptor dumping blocked) host markers clock).run
      (Stream.interceptor dumping blocked) reads = .ok (out, ⟨now, .tapped e⟩)) :
    e.SetUp dumping blocked host markers :=
  run_invariant (P := Exchange.SetUp dumping blocked host markers)
    (fun now chunk hs => Exchange.setUp_fromClient hs now chunk)
    (fun hs h => Exchange.setUp_fromOrigin hs h) (Exchange.setUp_fresh dumping blocked host markers)
    h

/-! ## After a reset -/

/-- A status is published only of a head with an error status. -/
def Response.Quiet (r : Response) : Prop :=
  r.reported = true → r.head.any Http.ResponseHead.isError = true

theorem Response.quiet_append {r r' : Response} {chunk : Bytes} (hq : r.Quiet)
    (h : r.append chunk = .ok r') : r'.Quiet := by
  unfold append findHead at h
  split at h
  · rename_i hnone _
    cases hp : Http.ResponseHead.parse ((r.buffer ++ chunk).take _) with
    | error => rw [hp] at h; cases h
    | ok =>
      rw [hp] at h
      cases h
      intro hr
      have hany := hq hr
      rw [hnone] at hany
      cases hany
  · cases h
    exact hq

theorem Response.Quiet.eq_fresh {r : Response} (hq : r.Quiet) (hs : r.Sound)
    (hb : r.buffer = []) : r = .fresh := by
  obtain ⟨buffer, head, reported⟩ := r
  cases hb
  cases hs.head
  cases reported with
  | false => rfl
  | true => cases hq rfl

theorem Exchange.quiet_observe {σ : Type} (i : Interceptor σ) {e : Exchange σ}
    (hq : e.response.Quiet) : (e.observe i).2.response.Quiet := by
  unfold observe
  cases hh : e.response.head with
  | none => exact hq
  | some head =>
    simp only
    split
    · split
      · exact hq
      · rename_i herr _
        intro _
        rw [hh]
        exact decide_eq_true herr
    · split <;> exact hq

theorem Exchange.quiet_fromOrigin {σ : Type} {i : Interceptor σ} {e e' : Exchange σ}
    {chunk : Bytes} {published : List Envelope} (hq : e.response.Quiet)
    (h : e.fromOrigin i chunk = .ok (published, e')) : e'.response.Quiet := by
  unfold fromOrigin at h
  cases ha : e.response.append chunk with
  | error => rw [ha] at h; cases h
  | ok response =>
    have hq₁ : ({ e with response } : Exchange σ).response.Quiet := Response.quiet_append hq ha
    have hq₂ : (if e.tapping then ({ e with response } : Exchange σ).observe i
        else ([], { e with response })).2.response.Quiet := by
      split
      · exact quiet_observe i hq₁
      · exact hq₁
    simp only [ha, Except.ok.injEq, Prod.mk.injEq] at h
    generalize (if e.tapping then ({ e with response } : Exchange σ).observe i
        else ([], { e with response })) = told at h hq₂
    rw [← h.2]
    split
    · exact nofun
    · exact hq₂

section

variable {σ : Type} {i : Interceptor σ} {clock now : Clock} {reads : List Read} {out : Output}
  {e : Exchange σ}
  (h : (tappedTunnel i host markers clock).run i reads = .ok (out, ⟨now, .tapped e⟩))

include h

theorem quiet_run : e.response.Quiet :=
  run_invariant (P := fun e => e.response.Quiet)
    (fun {e} now chunk hq => (fromClient_frame i e now chunk).1 ▸ hq)
    (fun hq h => Exchange.quiet_fromOrigin hq h) (fun hr => absurd hr Bool.false_ne_true) h

/-- What a tap has of the origin's bytes. -/
theorem response_run : e.response.Sound ∧ e.response.buffer = kept [] reads := by
  rcases run_tapped_cases i host markers clock reads with
    ⟨out', now', e', ha⟩ | ⟨crash, ht, -⟩ | ⟨ht, -⟩
  · cases ha.tapped.symm.trans h
    exact ⟨ha.sound, ha.buffer⟩
  · cases ht.symm.trans h
  · cases ht.symm.trans h

end

/-- Whatever a connection has been through: once nothing is kept of the origin's bytes, as behind
a last chunk, a tapped request makes it a new one. Whatever is read from there on, at whatever
times, it sends to either side and publishes, up to the times, what a new connection does. -/
theorem run_renewed {clock now : Clock} {history : List Read} {out : Output} {e : Exchange Stream}
    (hrun : (tappedTunnel (Stream.interceptor dumping blocked) host markers clock).run
      (Stream.interceptor dumping blocked) history = .ok (out, ⟨now, .tapped e⟩))
    (hreset : kept [] history = []) {request : Read} (htaps : request.Taps markers)
    {later reads : List Read}
    (hreads : (request :: later).map Read.untimed = reads.map Read.untimed) :
    ((⟨now, .tapped e⟩ : Tunnel Stream).run (Stream.interceptor dumping blocked)
        (request :: later)).map (Prod.map Output.untimed bare) =
      ((tappedTunnel (Stream.interceptor dumping blocked) host markers now).run
        (Stream.interceptor dumping blocked) reads).map (Prod.map Output.untimed bare) := by
  obtain ⟨hsound, hbuffer⟩ := response_run hrun
  have hfresh : e.response = .fresh := (quiet_run hrun).eq_fresh hsound (hbuffer.trans hreset)
  have h := run_of_setUp (setUp_run hrun) now htaps hreads
  rw [hfresh] at h
  exact h

/-- A request and a chunked response that is saved, twice on one connection. -/
theorem run_renewed_oneFrame :
    let i := Stream.interceptor true false
    let answer := Read.ofOrigin (Exchange.oneFrame.1 ++ Exchange.oneFrame.2)
    let start := tappedTunnel i "localhost" ["/ask"] ⟨some 600, 0⟩
    ∃ out now e, start.run i [ask, answer] = .ok (out, ⟨now, .tapped e⟩) ∧
      kept [] [ask, answer] = [] ∧ ask.Taps ["/ask"] ∧
      [ask, answer].map Read.untimed = [{ ask with time := ⟨false, 1⟩ }, answer].map Read.untimed ∧
      ((⟨now, .tapped e⟩ : Tunnel Stream).run i [ask, answer]).map (Prod.map Output.untimed bare) =
        ((tappedTunnel i "localhost" ["/ask"] now).run i
          [{ ask with time := ⟨false, 1⟩ }, answer]).map (Prod.map Output.untimed bare) := by
  intro i answer start
  have hkept : kept [] [ask, answer] = [] := by decide +kernel
  have hreads : [ask, answer].map Read.untimed =
      [{ ask with time := ⟨false, 1⟩ }, answer].map Read.untimed := rfl
  obtain ⟨out, now, e, hrun⟩ :=
    exists_of_isOk i "localhost" ["/ask"] ⟨some 600, 0⟩ [ask, answer] (by decide +kernel)
  exact ⟨out, now, e, hrun, hkept, taps_ask, hreads, run_renewed hrun hkept taps_ask hreads⟩

end Tunnel

end Wiretap
