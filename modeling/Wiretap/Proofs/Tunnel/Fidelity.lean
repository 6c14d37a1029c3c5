import Wiretap.Proofs.Http.Marker
import Wiretap.Proofs.Tunnel.Receive
import Wiretap.Proofs.Tunnel.Run
import Wiretap.Tap.Stream

/-!
# What a tapped relay sends on

The client gets the bytes of the origin as they were read, and the origin those of
the client, but for what an interceptor puts in the place of a tapped request's body
(`Sends`). A tapped relay goes on for as long as a blind one does, unless a response
head comes for whose fields a table has no room (`run_tapped_cases`); with the stock
interceptor it sends the same bytes until then (`tapped_bytes`).
-/

namespace Wiretap.Tunnel

variable {σ : Type}

/-- Bytes read from one side, in order. -/
def bytesFrom (side : Side) (reads : List Read) : Bytes :=
  ((reads.filter (·.side = side)).map Read.bytes).flatten

theorem bytesFrom_append (side : Side) (reads more : List Read) :
    bytesFrom side (reads ++ more) = bytesFrom side reads ++ bytesFrom side more := by
  simp [bytesFrom]

theorem bytesFrom_singleton {side : Side} {r : Read} (h : r.side = side) :
    bytesFrom side [r] = r.bytes := by
  simp [bytesFrom, h]

theorem bytesFrom_singleton_ne {side : Side} {r : Read} (h : r.side ≠ side) :
    bytesFrom side [r] = [] := by
  simp [bytesFrom, h]

/-- What of the origin's bytes is in the buffer: those since the last read with the marker
that ends a chunked body. -/
def kept (seen : Bytes) (reads : List Read) : Bytes :=
  (reads.filter (·.side = .origin)).foldl
    (fun seen r => if Response.marked (seen ++ r.bytes) then [] else seen ++ r.bytes) seen

theorem kept_concat_client {r : Read} (h : r.side = .client) (seen : Bytes) (reads : List Read) :
    kept seen (reads ++ [r]) = kept seen reads := by
  simp [kept, List.filter_append, h]

theorem kept_concat_origin {r : Read} (h : r.side = .origin) (seen : Bytes) (reads : List Read) :
    kept seen (reads ++ [r]) =
      if Response.marked (kept seen reads ++ r.bytes) then [] else kept seen reads ++ r.bytes := by
  unfold kept
  rw [List.filter_append, List.filter_cons_of_pos (by simp [h]), List.foldl_append]
  rfl

theorem kept_append (seen : Bytes) (reads more : List Read) :
    kept seen (reads ++ more) = kept (kept seen reads) more := by
  simp [kept, List.filter_append]

theorem kept_eq_append {seen : Bytes} {reads : List Read}
    (h : ¬ Http.lastChunk <:+: seen ++ bytesFrom .origin reads) :
    kept seen reads = seen ++ bytesFrom .origin reads := by
  induction reads using List.reverseRecOn with
  | nil => exact (List.append_nil seen).symm
  | append_singleton reads r ih =>
    rw [bytesFrom_append, ← List.append_assoc] at h ⊢
    have hreads := ih fun hin => h (hin.trans List.infix_append_left)
    cases hr : r.side with
    | client =>
      rw [kept_concat_client hr, hreads, bytesFrom_singleton_ne (by simp [hr]), List.append_nil]
    | origin =>
      rw [bytesFrom_singleton hr, ← Response.marked_eq_false_iff] at h
      rw [kept_concat_origin hr, hreads, bytesFrom_singleton hr, h]
      rfl

theorem kept_of_unmarked {reads : List Read} (h : ¬ Http.lastChunk <:+: bytesFrom .origin reads) :
    kept [] reads = bytesFrom .origin reads := kept_eq_append h

/-- The marker is never in what is kept. -/
theorem unmarked_kept (reads : List Read) : ¬ Http.lastChunk <:+: kept [] reads := by
  induction reads using List.reverseRecOn with
  | nil => decide
  | append_singleton reads r ih =>
    cases hr : r.side with
    | client => rwa [kept_concat_client hr]
    | origin =>
      rw [kept_concat_origin hr]
      split
      · decide
      · rename_i hm
        exact Response.marked_eq_false_iff.mp (Bool.eq_false_iff.mpr hm)

/-! ## One read from the client -/

/-- A head ends in a read, its first line is a request line whose path holds a marker, and the
interceptor, reset, gives `body` for what follows the head. -/
def Rewrites (i : Interceptor σ) (e : Exchange σ) (chunk : Bytes) (n : Nat) (body : Bytes) : Prop :=
  ∃ path state, Http.headerEnd chunk = some n ∧ Http.requestPath (chunk.take n) = some path ∧
    Http.hasMarker e.markers path = true ∧
    i.request (i.reset e.state) (chunk.drop n) e.host path = (.ok body, state)

/-- What is sent on of a client's read. -/
inductive Sent (i : Interceptor σ) (e : Exchange σ) (chunk : Bytes) : Bytes → Prop
  | same (h : ∀ n body, ¬ Rewrites i e chunk n body) : Sent i e chunk chunk
  | rewritten {n : Nat} {body : Bytes} (h : Rewrites i e chunk n body) :
      Sent i e chunk (chunk.take n ++ body)

theorem sent_fromClient (i : Interceptor σ) (e : Exchange σ) (now : Number.Double)
    (chunk : Bytes) : Sent i e chunk (e.fromClient i now chunk).1 := by
  unfold Exchange.fromClient
  cases hn : Http.headerEnd chunk with
  | none =>
    refine .same ?_
    rintro n body ⟨path, state, hn', -⟩
    cases hn.symm.trans hn'
  | some n =>
    simp only
    cases hp : Http.requestPath (chunk.take n) with
    | none =>
      refine .same ?_
      rintro n' body ⟨path, state, hn', hp', -⟩
      cases hn.symm.trans hn'
      cases hp.symm.trans hp'
    | some path =>
      simp only
      split
      · rename_i hm
        cases hr : i.request (i.reset e.state) (chunk.drop n) e.host path with
        | mk result state =>
          cases result with
          | ok body =>
            simp only [Exchange.tap, hr]
            exact .rewritten ⟨path, state, hn, hp, hm, hr⟩
          | error _ =>
            simp only [Exchange.tap, hr, Except.toOption, Option.getD_none,
              List.take_append_drop]
            refine .same ?_
            rintro n' body ⟨path', state', hn', hp', -, hr'⟩
            cases hn.symm.trans hn'
            cases hp.symm.trans hp'
            cases hr.symm.trans hr'
      · rename_i hm
        refine .same ?_
        rintro n' body ⟨path', state', hn', hp', hm', -⟩
        cases hn.symm.trans hn'
        cases hp.symm.trans hp'
        exact hm hm'

/-- A request leaves what was gathered of the response. -/
theorem fromClient_frame (i : Interceptor σ) (e : Exchange σ) (now : Number.Double)
    (chunk : Bytes) :
    (e.fromClient i now chunk).2.response = e.response ∧
      (e.fromClient i now chunk).2.host = e.host ∧
      (e.fromClient i now chunk).2.markers = e.markers := by
  unfold Exchange.fromClient
  split
  · exact ⟨rfl, rfl, rfl⟩
  · split
    · exact ⟨rfl, rfl, rfl⟩
    · split <;> exact ⟨rfl, rfl, rfl⟩

/-! ## One read from either side -/

theorem deadline_eq_error {clock : Clock} {crash : Crash} (h : clock.deadline = .error crash) :
    crash = .clockOverflow :=
  (Clock.deadline_eq_error_iff.mp h).1

theorem step_of_late {i : Interceptor σ} {t : Tunnel σ} {crash : Crash}
    (h : t.clock.deadline = .error crash) (r : Read) : t.step i r = .error crash := by
  rw [step, h]
  rfl

theorem step_blind {clock : Clock} {d : Option Moment} (h : clock.deadline = .ok d)
    (i : Interceptor σ) (r : Read) :
    (⟨clock, .blind⟩ : Tunnel σ).step i r =
      .ok (⟨bytesFrom .origin [r], bytesFrom .client [r], []⟩, ⟨clock.touch r.moment, .blind⟩) := by
  obtain ⟨side, bytes, moment, time⟩ := r
  rw [step, h]
  cases side <;> simp [bytesFrom, Relay.pass] <;> rfl

theorem step_client {clock : Clock} {d : Option Moment} (h : clock.deadline = .ok d)
    (i : Interceptor σ) (e : Exchange σ) {r : Read} (hr : r.side = .client) :
    (⟨clock, .tapped e⟩ : Tunnel σ).step i r =
      .ok (⟨[], (e.fromClient i r.time r.bytes).1, []⟩,
        ⟨clock.touch r.moment, .tapped (e.fromClient i r.time r.bytes).2⟩) := by
  obtain ⟨side, bytes, moment, time⟩ := r
  cases hr
  rw [step, h]
  rfl

theorem step_origin {clock : Clock} {d : Option Moment} (h : clock.deadline = .ok d)
    (i : Interceptor σ) (e : Exchange σ) {r : Read} (hr : r.side = .origin) :
    (⟨clock, .tapped e⟩ : Tunnel σ).step i r =
      (e.fromOrigin i r.bytes).map fun (published, e') =>
        (⟨r.bytes, [], published⟩, ⟨clock.touch r.moment, .tapped e'⟩) := by
  obtain ⟨side, bytes, moment, time⟩ := r
  cases hr
  rw [step, h]
  simp only [Relay.pass]
  cases e.fromOrigin i bytes <;> rfl

/-! ## Runs -/

/-- What is sent to the origin in a run: of each read from the client what `Sent` allows, with
the exchange as it stands at that read. -/
inductive Sends (i : Interceptor σ) (t : Tunnel σ) : List Read → Bytes → Prop
  | nil : Sends i t [] []
  | origin {reads : List Read} {sent : Bytes} {r : Read} (earlier : Sends i t reads sent)
      (side : r.side = .origin) : Sends i t (reads ++ [r]) sent
  | client {reads : List Read} {sent : Bytes} {r : Read} {out : Output} {clock : Clock}
      {e : Exchange σ} {piece : Bytes} (earlier : Sends i t reads sent) (side : r.side = .client)
      (run : t.run i reads = .ok (out, ⟨clock, .tapped e⟩)) (sends : Sent i e r.bytes piece) :
      Sends i t (reads ++ [r]) (sent ++ piece)

/-- While a blind relay would still go on, a response head comes for whose fields a table has no
room. -/
def CrowdedRun (i : Interceptor σ) (clock : Clock) (reads : List Read) : Prop :=
  ∃ before r after, reads = before ++ r :: after ∧ r.side = .origin ∧
    (∃ out t, (⟨clock, .blind⟩ : Tunnel σ).run i (before ++ [r]) = .ok (out, t)) ∧
    Http.Crowded (kept [] before ++ r.bytes)

variable (i : Interceptor σ) (host : String) (markers : List String) (clock : Clock)

/-- The tunnel of a connection that is to be tapped. -/
def tappedTunnel : Tunnel σ := ⟨clock, .tapped (.fresh i host markers)⟩

/-- A tapped relay and a blind one after the same reads. -/
structure Abreast (reads : List Read) (out : Output) (now : Clock) (e : Exchange σ) : Prop where
  tapped : (tappedTunnel i host markers clock).run i reads = .ok (out, ⟨now, .tapped e⟩)
  blind : (⟨clock, .blind⟩ : Tunnel σ).run i reads =
    .ok (⟨bytesFrom .origin reads, bytesFrom .client reads, []⟩, ⟨now, .blind⟩)
  sound : e.response.Sound
  buffer : e.response.buffer = kept [] reads
  toClient : out.toClient = bytesFrom .origin reads
  toOrigin : Sends i (tappedTunnel i host markers clock) reads out.toOrigin

variable {i host markers clock}

theorem blind_concat {reads : List Read} {now : Clock} {d : Option Moment}
    (h : (⟨clock, .blind⟩ : Tunnel σ).run i reads =
      .ok (⟨bytesFrom .origin reads, bytesFrom .client reads, []⟩, ⟨now, .blind⟩))
    (hd : now.deadline = .ok d) (r : Read) :
    (⟨clock, .blind⟩ : Tunnel σ).run i (reads ++ [r]) =
      .ok (⟨bytesFrom .origin (reads ++ [r]), bytesFrom .client (reads ++ [r]), []⟩,
        ⟨now.touch r.moment, .blind⟩) := by
  rw [bytesFrom_append, bytesFrom_append]
  exact run_append_ok.mpr ⟨_, _, _, h, run_singleton_ok.mpr (step_blind hd i r), rfl⟩

theorem run_blind_error {reads : List Read} {crash : Crash}
    (h : (⟨clock, .blind⟩ : Tunnel σ).run i reads = .error crash) : crash = .clockOverflow := by
  induction reads generalizing clock with
  | nil => cases h
  | cons r rest ih =>
    cases hd : clock.deadline with
    | error crash' =>
      rw [run_cons, step_of_late hd] at h
      cases h
      exact deadline_eq_error hd
    | ok d =>
      rcases run_cons_error.mp h with hs | ⟨out, t, hs, hr⟩
      · rw [step_blind hd] at hs
        cases hs
      · rw [step_blind hd] at hs
        cases hs
        exact ih hr

/-- A blind relay goes on while its clock can tell when the next wait ends. -/
theorem run_blind_ok {reads : List Read} (h : ∃ d, clock.deadline = .ok d)
    (hreads : ∀ r ∈ reads, ∃ d, (clock.touch r.moment).deadline = .ok d) :
    ∃ out t, (⟨clock, .blind⟩ : Tunnel σ).run i reads = .ok (out, t) := by
  induction reads generalizing clock with
  | nil => exact ⟨_, _, rfl⟩
  | cons r rest ih =>
    obtain ⟨d, hd⟩ := h
    obtain ⟨out, t, hrest⟩ := ih (hreads r List.mem_cons_self)
      fun r' hr' => hreads r' (List.mem_cons_of_mem r hr')
    exact ⟨_, t, run_cons_ok.mpr ⟨_, _, out, step_blind hd i r, hrest, rfl⟩⟩

theorem Abreast.client {reads : List Read} {out : Output} {now : Clock} {e : Exchange σ}
    (h : Abreast i host markers clock reads out now e) {r : Read} (hr : r.side = .client)
    {d : Option Moment} (hd : now.deadline = .ok d) :
    ∃ out' now' e', Abreast i host markers clock (reads ++ [r]) out' now' e' := by
  obtain ⟨hresp, -, -⟩ := fromClient_frame i e r.time r.bytes
  refine ⟨_, _, _, run_append_ok.mpr ⟨_, _, _, h.tapped,
    run_singleton_ok.mpr (step_client hd i e hr), rfl⟩, blind_concat h.blind hd r, ?_, ?_, ?_, ?_⟩
  · rw [hresp]
    exact h.sound
  · rw [hresp, h.buffer, kept_concat_client hr]
  · simp [h.toClient, bytesFrom_append, bytesFrom_singleton_ne, hr]
  · exact .client h.toOrigin hr h.tapped (sent_fromClient i e r.time r.bytes)

theorem Abreast.origin {reads : List Read} {out : Output} {now : Clock} {e : Exchange σ}
    (h : Abreast i host markers clock reads out now e) {r : Read} (hr : r.side = .origin)
    {d : Option Moment} (hd : now.deadline = .ok d) {head : Option Http.ResponseHead}
    (hh : Response.headOf (kept [] reads ++ r.bytes) = .ok head) :
    ∃ out' now' e', Abreast i host markers clock (reads ++ [r]) out' now' e' := by
  rw [← h.buffer] at hh
  obtain ⟨published, e', reported, hstep, hresp⟩ :=
    Exchange.fromOrigin_response i h.sound r.bytes hh
  have htapped := step_origin hd i e hr
  rw [hstep] at htapped
  refine ⟨_, _, _, run_append_ok.mpr ⟨_, _, _, h.tapped, run_singleton_ok.mpr htapped, rfl⟩,
    blind_concat h.blind hd r, ?_, ?_, ?_, ?_⟩
  · rw [hresp]
    exact Response.sound_keep hh reported
  · rw [hresp, kept_concat_origin hr, ← h.buffer]
    unfold Response.keep
    split <;> rfl
  · simp [h.toClient, bytesFrom_append, bytesFrom_singleton hr]
  · rw [Output.toOrigin_append, List.append_nil]
    exact .origin h.toOrigin hr

theorem abreast_nil : Abreast i host markers clock [] .none clock (.fresh i host markers) :=
  ⟨rfl, rfl, Response.sound_fresh, rfl, rfl, .nil⟩

theorem CrowdedRun.append {reads : List Read} (h : CrowdedRun i clock reads) (more : List Read) :
    CrowdedRun i clock (reads ++ more) := by
  obtain ⟨before, r, after, rfl, hr, hblind, hc⟩ := h
  exact ⟨before, r, after ++ more, by simp, hr, hblind, hc⟩

variable (i host markers clock) in
/-- The two relays go on together, or crash together, or the tapped one crashes at a head. -/
theorem run_tapped_cases (reads : List Read) :
    (∃ out now e, Abreast i host markers clock reads out now e) ∨
    (∃ crash, (tappedTunnel i host markers clock).run i reads = .error crash ∧
      (⟨clock, .blind⟩ : Tunnel σ).run i reads = .error crash) ∨
    ((tappedTunnel i host markers clock).run i reads = .error .crowdedHead ∧
      CrowdedRun i clock reads) := by
  induction reads using List.reverseRecOn with
  | nil => exact .inl ⟨_, _, _, abreast_nil⟩
  | append_singleton reads r ih =>
    rcases ih with ⟨out, now, e, h⟩ | ⟨crash, ht, hb⟩ | ⟨ht, hc⟩
    · cases hd : now.deadline with
      | error crash =>
        refine .inr (.inl ⟨crash, run_append_error.mpr (.inr ⟨_, _, h.tapped, ?_⟩),
          run_append_error.mpr (.inr ⟨_, _, h.blind, ?_⟩)⟩)
        · exact run_singleton_error.mpr (step_of_late hd r)
        · exact run_singleton_error.mpr (step_of_late hd r)
      | ok d =>
        cases hr : r.side with
        | client => exact .inl (h.client hr hd)
        | origin =>
          cases hh : Response.headOf (kept [] reads ++ r.bytes) with
          | ok head => exact .inl (h.origin hr hd hh)
          | error crash =>
            obtain ⟨rfl, hc⟩ := Response.headOf_eq_error_iff.mp hh
            have hstep := step_origin hd i e hr
            rw [Exchange.fromOrigin_crash i h.sound r.bytes (h.buffer ▸ hh)] at hstep
            exact .inr (.inr ⟨run_append_error.mpr (.inr ⟨_, _, h.tapped,
              run_singleton_error.mpr hstep⟩), reads, r, [], rfl, hr,
              ⟨_, _, blind_concat h.blind hd r⟩, hc⟩)
    · exact .inr (.inl ⟨crash, run_append_error.mpr (.inl ht), run_append_error.mpr (.inl hb)⟩)
    · exact .inr (.inr ⟨run_append_error.mpr (.inl ht), hc.append [r]⟩)

theorem run_tapped_of_crowded {reads : List Read} (h : CrowdedRun i clock reads) :
    (tappedTunnel i host markers clock).run i reads = .error .crowdedHead := by
  obtain ⟨before, r, after, rfl, hr, ⟨out, t, hblind⟩, hc⟩ := h
  rw [List.append_cons]
  refine run_append_error.mpr (.inl (run_append_error.mpr ?_))
  obtain ⟨out₁, t₁, out₂, hbefore, hlast, -⟩ := run_append_ok.mp hblind
  rcases run_tapped_cases i host markers clock before with
    ⟨out, now, e, ha⟩ | ⟨crash, -, hb⟩ | ⟨ht, -⟩
  · right
    refine ⟨_, _, ha.tapped, run_singleton_error.mpr ?_⟩
    cases ha.blind.symm.trans hbefore
    cases hd : now.deadline with
    | error crash =>
      rw [run_singleton_ok, step_of_late hd] at hlast
      cases hlast
    | ok d =>
      have hh := Response.headOf_eq_error_iff.mpr ⟨rfl, hc⟩
      rw [step_origin hd i e hr, Exchange.fromOrigin_crash i ha.sound r.bytes (ha.buffer ▸ hh)]
      rfl
  · rw [hb] at hbefore
    cases hbefore
  · exact .inl ht

theorem sends_stock {dumping blocked : Bool} {t : Tunnel Tap.Stream} {reads : List Read}
    {sent : Bytes} (h : Sends (Tap.Stream.interceptor dumping blocked) t reads sent) :
    sent = bytesFrom .client reads := by
  induction h with
  | nil => rfl
  | origin earlier side ih =>
    rw [bytesFrom_append, bytesFrom_singleton_ne (by simp [side]), List.append_nil, ih]
  | client earlier side run sends ih =>
    rw [bytesFrom_append, bytesFrom_singleton side, ih]
    cases sends with
    | same => rfl
    | rewritten h =>
      obtain ⟨path, state, -, -, -, hr⟩ := h
      cases hr
      rw [List.take_append_drop]

/-- What a run has sent to either side. -/
def sentBytes : Output × Tunnel σ → Bytes × Bytes := fun (out, _) => (out.toClient, out.toOrigin)

theorem sentBytes_eq_iff (dumping blocked : Bool) (host : String) (markers : List String)
    (clock : Clock) (reads : List Read) :
    let i := Tap.Stream.interceptor dumping blocked
    ((tappedTunnel i host markers clock).run i reads).map sentBytes =
        ((⟨clock, .blind⟩ : Tunnel Tap.Stream).run i reads).map sentBytes ↔
      ¬ CrowdedRun i clock reads := by
  intro i
  constructor
  · intro heq hc
    rw [run_tapped_of_crowded hc] at heq
    cases hb : (⟨clock, .blind⟩ : Tunnel Tap.Stream).run i reads with
    | ok => rw [hb] at heq; cases heq
    | error crash =>
      cases run_blind_error hb
      rw [hb] at heq
      cases heq
  · intro hc
    rcases run_tapped_cases i host markers clock reads with
      ⟨out, now, e, ha⟩ | ⟨crash, ht, hb⟩ | ⟨-, hc'⟩
    · rw [ha.tapped, ha.blind]
      simp only [Except.map, sentBytes, ha.toClient, sends_stock ha.toOrigin]
    · rw [ht, hb]
    · exact absurd hc' hc

/-! ## A crowded head -/

def Read.ofOrigin (bytes : Bytes) : Read := ⟨.origin, bytes, 0, .zero⟩

theorem bytesFrom_ofOrigin (pieces : List Bytes) :
    bytesFrom .origin (pieces.map .ofOrigin) = pieces.flatten := by
  simp [bytesFrom, Read.ofOrigin, List.filter_map, Function.comp_def]

/-- A head that is read line by line. -/
def headReads (lines : List Bytes) : List Read :=
  (lines.map (· ++ Bytes.crlf) ++ [Bytes.crlf]).map .ofOrigin

theorem headReads_eq (lines : List Bytes) : headReads lines =
    (lines.map (· ++ Bytes.crlf)).map .ofOrigin ++ [.ofOrigin Bytes.crlf] :=
  List.map_append

theorem bytesFrom_headReads (lines : List Bytes) :
    bytesFrom .origin (headReads lines) = lines.flatMap (· ++ Bytes.crlf) ++ Bytes.crlf := by
  rw [headReads, bytesFrom_ofOrigin, List.flatten_append, List.flatten_singleton,
    List.flatMap_def]

theorem run_blind_headReads (i : Interceptor σ) (lines : List Bytes) {limit : Nat}
    (hlimit : limit ≤ lastMoment) :
    ∃ out t, (⟨⟨some limit, 0⟩, .blind⟩ : Tunnel σ).run i (headReads lines) = .ok (out, t) := by
  have hdeadline : ∃ d, (⟨some limit, 0⟩ : Clock).deadline = .ok d :=
    ⟨some limit, by simp [Clock.deadline, Clock.after, hlimit, Except.map]⟩
  refine run_blind_ok hdeadline fun r hr => ?_
  obtain ⟨line, -, rfl⟩ := List.mem_map.mp hr
  exact hdeadline

theorem crowdedRun_headReads (i : Interceptor σ) {lines : List Bytes}
    (h : ∀ l ∈ lines, Http.IsLine l)
    (hc : Http.Crowded (lines.flatMap (· ++ Bytes.crlf) ++ Bytes.crlf)) {limit : Nat}
    (hlimit : limit ≤ lastMoment) : CrowdedRun i ⟨some limit, 0⟩ (headReads lines) := by
  have hbytes : bytesFrom .origin ((lines.map (· ++ Bytes.crlf)).map .ofOrigin) =
      lines.flatMap (· ++ Bytes.crlf) := by
    rw [bytesFrom_ofOrigin, List.flatMap_def]
  -- the marker could only come about with the empty line
  have hunmarked : ¬ Http.lastChunk <:+: lines.flatMap (· ++ Bytes.crlf) := by
    rw [← List.append_nil (lines.flatMap _), Http.marker_infix_lines h]
    exact not_or.mpr ⟨fun hp => absurd hp.2 (by decide), by decide⟩
  refine ⟨_, _, [], headReads_eq lines, rfl, ?_, ?_⟩
  · rw [← headReads_eq]
    exact run_blind_headReads i lines hlimit
  · rw [kept_of_unmarked (hbytes ▸ hunmarked), hbytes]
    exact hc

/-- A tapped relay sends the client what the origin sent, and the origin what the client sent but
for rewritten bodies, and it goes on just as long as a blind one until a crowded head comes; with
the stock interceptor the two send the same until then, and only until then. -/
theorem tapped_bytes (i : Interceptor σ) (host : String) (markers : List String) (clock : Clock)
    (reads : List Read) :
    (∀ out t, (tappedTunnel i host markers clock).run i reads = .ok (out, t) →
      out.toClient = bytesFrom .origin reads ∧
        Sends i (tappedTunnel i host markers clock) reads out.toOrigin) ∧
    ((∃ out t, (tappedTunnel i host markers clock).run i reads = .ok (out, t)) ↔
      (∃ out t, (⟨clock, .blind⟩ : Tunnel σ).run i reads = .ok (out, t)) ∧
        ¬ CrowdedRun i clock reads) ∧
    ∀ dumping blocked : Bool,
      let stock := Tap.Stream.interceptor dumping blocked
      ((tappedTunnel stock host markers clock).run stock reads).map sentBytes =
          ((⟨clock, .blind⟩ : Tunnel Tap.Stream).run stock reads).map sentBytes ↔
        ¬ CrowdedRun stock clock reads := by
  refine ⟨?_, ?_, fun dumping blocked => ?_⟩
  · intro out t h
    rcases run_tapped_cases i host markers clock reads with
      ⟨out', now, e, ha⟩ | ⟨crash, ht, -⟩ | ⟨ht, -⟩
    · cases ha.tapped.symm.trans h
      exact ⟨ha.toClient, ha.toOrigin⟩
    · cases ht.symm.trans h
    · cases ht.symm.trans h
  · rcases run_tapped_cases i host markers clock reads with
      ⟨out, now, e, ha⟩ | ⟨crash, ht, hb⟩ | ⟨ht, hc⟩
    · refine ⟨fun _ => ⟨⟨_, _, ha.blind⟩, fun hc => ?_⟩, fun _ => ⟨_, _, ha.tapped⟩⟩
      cases ha.tapped.symm.trans (run_tapped_of_crowded hc)
    · simp [ht, hb]
    · simp [ht, hc]
  · exact sentBytes_eq_iff dumping blocked host markers clock reads

/-- A head of one field more than there is room for. -/
def crowdedLines : List Bytes :=
  Utf8.encode "HTTP/1.1 200 OK" ::
    (Http.shortNames (Http.Headers.capacity + 1)).map Http.bareField

theorem isLine_crowdedLines : ∀ l ∈ crowdedLines, Http.IsLine l :=
  Http.isLine_bareFields (by decide +kernel) Http.fieldName?_of_mem_shortNames

theorem length_crowdedLines : ∀ l ∈ crowdedLines, l.length ≤ 15 := by
  refine List.forall_mem_cons.mpr ⟨by decide +kernel, fun l hl => ?_⟩
  obtain ⟨name, hname, rfl⟩ := List.mem_map.mp hl
  obtain ⟨k, -, rfl⟩ := List.mem_map.mp hname
  show 5 ≤ 15
  decide

theorem crowded_shortNames {status : Bytes} (hs : Http.IsLine status) :
    Http.Crowded ((status :: (Http.shortNames (Http.Headers.capacity + 1)).map
      Http.bareField).flatMap (· ++ Bytes.crlf) ++ Bytes.crlf) := by
  have hnames : ∀ name ∈ Http.shortNames (Http.Headers.capacity + 1),
      Http.fieldName? name = some name := Http.fieldName?_of_mem_shortNames
  have hnodup := Http.nodup_shortNames (show Http.Headers.capacity + 1 ≤ 65536 by decide)
  have hfields := Http.filterMap_bareField hnames
  have hiff := Http.crowded_lines_iff (Http.isLine_bareFields hs hnames)
    (by rwa [hfields, Http.map_name_bare]) []
  rw [List.append_nil, hfields, List.length_map, Http.length_shortNames] at hiff
  exact hiff.mpr (Nat.lt_succ_self _)

theorem crowded_crowdedLines :
    Http.Crowded (crowdedLines.flatMap (· ++ Bytes.crlf) ++ Bytes.crlf) :=
  crowded_shortNames (isLine_crowdedLines _ List.mem_cons_self)

/-- The client of a tapped relay gets nothing of a crowded head that a blind one sends on. -/
theorem not_sentBytes_eq_crowdedLines :
    let stock := Tap.Stream.interceptor false false
    let reads := headReads crowdedLines
    (∀ r ∈ reads, r.bytes ≠ [] ∧ r.bytes.length ≤ 8192) ∧
    (tappedTunnel stock "localhost" [] ⟨some 600, 0⟩).run stock reads = .error .crowdedHead ∧
    ((tappedTunnel stock "localhost" [] ⟨some 600, 0⟩).run stock reads).map sentBytes ≠
      ((⟨⟨some 600, 0⟩, .blind⟩ : Tunnel Tap.Stream).run stock reads).map sentBytes := by
  intro stock reads
  have hrun : CrowdedRun stock ⟨some 600, 0⟩ reads :=
    crowdedRun_headReads stock isLine_crowdedLines crowded_crowdedLines (by decide)
  refine ⟨fun r hr => ?_, run_tapped_of_crowded hrun, fun heq => ?_⟩
  · obtain ⟨piece, hpiece, rfl⟩ := List.mem_map.mp hr
    rcases List.mem_append.mp hpiece with hpiece | hpiece
    · obtain ⟨l, hl, rfl⟩ := List.mem_map.mp hpiece
      have hlen := length_crowdedLines l hl
      refine ⟨List.append_ne_nil_of_right_ne_nil l (by decide), ?_⟩
      simp only [Read.ofOrigin, List.length_append, Bytes.crlf, List.length_cons, List.length_nil]
      omega
    · rw [List.mem_singleton] at hpiece
      subst hpiece
      decide
  · exact (sentBytes_eq_iff false false "localhost" [] _ reads).mp heq hrun

end Wiretap.Tunnel
