import Wiretap.Proofs.Tunnel.Renewed

/-!
# What a connection carries over

Behind a response without a last chunk nothing is forgotten. The next response on the
connection is read as more of what was kept, just as if all of it had come in one
(`run_emptied`); behind a response with a Content-Length it is not read at all
(`run_unread`). So a tapped request behind such a response does not make the connection
a new one: it publishes what a new one would if the bytes that are kept came before the
next response (`run_carried`), and tells the first answer again (`not_renewed_sized`).
-/

namespace Wiretap

open Bytes (cr lf)

namespace Http

/-- The marker does not come about where bytes follow that begin with no line end. -/
theorem marker_infix_append {s t : Bytes} (ht : ∀ b ∈ t.head?, b ≠ cr ∧ b ≠ lf) :
    lastChunk <:+: s ++ t ↔ lastChunk <:+: s ∨ lastChunk <:+: t := by
  induction s with
  | nil => simp [lastChunk]
  | cons b rest ih =>
    have hfirst : lastChunk <+: b :: (rest ++ t) ↔ lastChunk <+: b :: rest := by
      refine ⟨fun hp => ?_, fun hp => hp.trans (List.prefix_append (b :: rest) t)⟩
      rcases t with _ | ⟨x, t⟩
      · rwa [List.append_nil] at hp
      obtain ⟨hcr, hlf⟩ := ht x rfl
      rcases rest with _ | ⟨c, _ | ⟨d, _ | ⟨e, _ | ⟨f, rest⟩⟩⟩⟩
      -- with less than the marker before it, `x` would have to be one of its line ends
      · simp only [lastChunk, List.nil_append, List.cons_prefix_cons] at hp
        exact absurd hp.2.1.symm hcr
      · simp only [lastChunk, List.nil_append, List.cons_append, List.cons_prefix_cons] at hp
        exact absurd hp.2.2.1.symm hlf
      · simp only [lastChunk, List.nil_append, List.cons_append, List.cons_prefix_cons] at hp
        exact absurd hp.2.2.2.1.symm hcr
      · simp only [lastChunk, List.nil_append, List.cons_append, List.cons_prefix_cons] at hp
        exact absurd hp.2.2.2.2.1.symm hlf
      · exact List.prefix_of_prefix_length_le hp (List.prefix_append _ (x :: t))
          (by simp [lastChunk])
    rw [List.cons_append, List.infix_cons_iff, List.infix_cons_iff, ih, hfirst, or_assoc]

end Http

namespace Tunnel

open Tap (Stream)

variable {σ : Type}

/-- A response of which its head tells the length. -/
structure Sized (head body : Bytes) (h : Http.ResponseHead) : Prop extends Headed head body h where
  begins : Utf8.encode "HTTP/" <+: head
  unchunked : h.headers.isChunked = false
  length : h.headers.length? = some body.length
  unmarked : ¬ Http.lastChunk <:+: head ++ body

theorem Sized.head?_ne {head body : Bytes} {h : Http.ResponseHead} (hs : Sized head body h) :
    ∀ b ∈ (head ++ body).head?, b ≠ cr ∧ b ≠ lf := by
  obtain ⟨rest, rfl⟩ := hs.begins
  intro b hb
  cases (Option.mem_some_iff.mp hb)
  decide

/-- All of it is kept, behind what was kept before. -/
theorem Sized.kept_append {head body : Bytes} {h : Http.ResponseHead} (hs : Sized head body h)
    {earlier first : List Read} (hfirst : bytesFrom .origin first = head ++ body) :
    kept [] (earlier ++ first) = kept [] earlier ++ (head ++ body) := by
  have hunmarked : ¬ Http.lastChunk <:+: kept [] earlier ++ bytesFrom .origin first := by
    rw [hfirst, Http.marker_infix_append hs.head?_ne]
    exact not_or.mpr ⟨unmarked_kept earlier, hs.unmarked⟩
  rw [Tunnel.kept_append, kept_eq_append hunmarked, hfirst]

/-- The same reads, the first one from the origin with these bytes in front of its own. -/
def preceded (bytes : Bytes) : List Read → List Read
  | [] => []
  | r :: rest =>
    match r.side with
    | .client => r :: preceded bytes rest
    | .origin => { r with bytes := bytes ++ r.bytes } :: rest

theorem untimed_preceded (bytes : Bytes) (reads : List Read) :
    (preceded bytes reads).map Read.untimed = preceded bytes (reads.map Read.untimed) := by
  induction reads with
  | nil => rfl
  | cons r rest ih =>
    obtain ⟨side, own, moment, time⟩ := r
    cases side with
    | client => exact congrArg (List.cons _) ih
    | origin => rfl

namespace Exchange

/-- Without the bytes of the response; whether a status has been published of them stays. -/
def emptied (e : Exchange σ) : Exchange σ :=
  { e with response := ⟨[], none, e.response.reported⟩ }

theorem fromClient_emptied (i : Interceptor σ) (e : Exchange σ) (now : Number.Double)
    (chunk : Bytes) :
    e.emptied.fromClient i now chunk =
      ((e.fromClient i now chunk).1, (e.fromClient i now chunk).2.emptied) := by
  obtain ⟨hresp, -, -⟩ := fromClient_frame i e now chunk
  rw [emptied, fromClient_response, emptied, hresp]

/-- Bytes that were kept and the same bytes coming anew are one. -/
theorem fromOrigin_emptied (i : Interceptor σ) {e : Exchange σ} (hs : e.response.Sound)
    (chunk : Bytes) :
    e.emptied.fromOrigin i (e.response.buffer ++ chunk) = e.fromOrigin i chunk := by
  have hempty : e.emptied.response.Sound :=
    ⟨rfl, show ¬ Http.lastChunk <:+: [] by decide⟩
  rw [fromOrigin_eq i hs, fromOrigin_eq i hempty]
  rfl

end Exchange

/-- What a run has published. -/
def told : Output × Tunnel σ → List Envelope := fun (out, _) => out.published

/-- Two runs tell the same if their first reads do, and then what follows. -/
theorem told_run_cons {i : Interceptor σ} {t t' t₁ t₁' : Tunnel σ} {r r' : Read}
    {rest rest' : List Read} {out out' : Output} (hs : t.step i r = .ok (out, t₁))
    (hs' : t'.step i r' = .ok (out', t₁')) (hout : out.published = out'.published)
    (hrest : (t₁.run i rest).map told = (t₁'.run i rest').map told) :
    (t.run i (r :: rest)).map told = (t'.run i (r' :: rest')).map told := by
  rw [run_cons, run_cons, hs, hs']
  rcases cases_of_map_eq_map hrest with
    ⟨crash, h₁, h₂⟩ | ⟨⟨later, t₂⟩, ⟨later', t₂'⟩, h₁, h₂, htold⟩
  · simp only [h₁, h₂]
    rfl
  · simp only [h₁, h₂, Except.map, told, Output.published_append] at htold ⊢
    rw [hout, htold]

theorem run_emptied (i : Interceptor σ) (clock : Clock) {e : Exchange σ} (hs : e.response.Sound)
    (reads : List Read) :
    ((⟨clock, .tapped e.emptied⟩ : Tunnel σ).run i (preceded e.response.buffer reads)).map told =
      ((⟨clock, .tapped e⟩ : Tunnel σ).run i reads).map told := by
  induction reads generalizing clock e with
  | nil => rfl
  | cons r rest ih =>
    cases hd : clock.deadline with
    | error crash =>
      rw [preceded]
      split <;> rw [run_cons, run_cons, step_of_late hd, step_of_late hd]
    | ok d =>
      obtain ⟨side, bytes, moment, time⟩ := r
      cases side with
      | client =>
        obtain ⟨hresp, -, -⟩ := fromClient_frame i e time bytes
        have hrest := ih (clock.touch moment) (hresp ▸ hs)
        rw [hresp] at hrest
        have hstep := step_client hd i e.emptied (r := ⟨.client, bytes, moment, time⟩) rfl
        rw [Exchange.fromClient_emptied] at hstep
        exact told_run_cons hstep (step_client hd i e rfl) rfl hrest
      | origin =>
        have hstep := step_origin hd i e (r := ⟨.origin, bytes, moment, time⟩) rfl
        have hstep' := step_origin hd i e.emptied
          (r := ⟨.origin, e.response.buffer ++ bytes, moment, time⟩) rfl
        simp only at hstep hstep'
        rw [Exchange.fromOrigin_emptied i hs] at hstep'
        cases ho : e.fromOrigin i bytes with
        | error crash =>
          rw [ho] at hstep hstep'
          rw [preceded, run_cons, run_cons, hstep, hstep']
          rfl
        | ok result =>
          rw [ho] at hstep hstep'
          exact told_run_cons hstep' hstep rfl rfl

theorem map_told_untimed (result : Except Crash (Output × Tunnel σ)) :
    (result.map told).map (List.map Envelope.untimed) =
      result.map (List.map Envelope.untimed ∘ told) := by
  cases result <;> rfl

theorem told_map_untimed (result : Except Crash (Output × Tunnel Stream)) :
    result.map (List.map Envelope.untimed ∘ told) =
      (result.map (Prod.map Output.untimed bare)).map told := by
  cases result <;> rfl

/-- From a tapped request on, the bytes that are kept count as if they came anew. -/
theorem run_of_kept {dumping blocked : Bool} {host : String} {markers : List String}
    {e : Exchange Stream} (hs : e.SetUp dumping blocked host markers) (hsound : e.response.Sound)
    (clock : Clock) {request : Read} (htaps : request.Taps markers) {later reads : List Read}
    (hreads : (request :: later).map Read.untimed = reads.map Read.untimed) :
    ((⟨clock, .tapped e⟩ : Tunnel Stream).run (Stream.interceptor dumping blocked)
        (request :: later)).map (List.map Envelope.untimed ∘ told) =
      ((⟨clock, .tapped { Exchange.fresh (Stream.interceptor dumping blocked) host markers with
        response := e.emptied.response }⟩ : Tunnel Stream).run
        (Stream.interceptor dumping blocked) (preceded e.response.buffer reads)).map
        (List.map Envelope.untimed ∘ told) := by
  have hsplit : preceded e.response.buffer (request :: later) =
      request :: preceded e.response.buffer later := by
    rw [preceded, htaps.1]
  have hsame : (request :: preceded e.response.buffer later).map Read.untimed =
      (preceded e.response.buffer reads).map Read.untimed := by
    rw [← hsplit, untimed_preceded, hreads, ← untimed_preceded]
  have hs' : e.emptied.SetUp dumping blocked host markers :=
    ⟨hs.host, hs.markers, hs.dumping, hs.blocked⟩
  have hanew := run_of_setUp hs' clock htaps hsame
  rw [← map_told_untimed, ← run_emptied _ clock hsound, map_told_untimed, hsplit,
    told_map_untimed, hanew, ← told_map_untimed]

/-! ## What is told behind a response with a Content-Length -/

section

variable {head body : Bytes} {h : Http.ResponseHead} {dumping blocked : Bool}

/-- More bytes behind its body make no difference to what is told of it. -/
theorem Sized.response_append (hs : Sized head body h) (s : Stream) (more : Bytes) :
    s.response ((head ++ body ++ more).drop h.bodyStart) h.headers =
      s.response ((head ++ body).drop h.bodyStart) h.headers := by
  have hstart : h.bodyStart = head.length := Response.bodyStart_of_parse hs.parses
  have hdone : (Http.unframe body h.headers).2 = true := by
    simp [Http.unframe, hs.unchunked, hs.length]
  rw [hstart, List.append_assoc, List.drop_left, List.drop_left]
  simp only [Stream.response, Stream.content_append_of_done hdone]

theorem Sized.headOf_append (hs : Sized head body h) (more : Bytes) :
    Response.headOf (head ++ body ++ more) = .ok (some h) := by
  rw [Response.headOf_append more hs.ends]
  exact hs.headOf_of_le List.prefix_rfl (List.prefix_append head body).length_le

/-- The same read without its bytes, if it is one from the origin. -/
def Read.hollow (r : Read) : Read :=
  match r.side with
  | .client => r
  | .origin => { r with bytes := [] }

namespace Exchange

/-- A connection on which a response has come, and these bytes behind it. -/
def behind (e : Exchange σ) (head body more : Bytes) (h : Http.ResponseHead) (reported : Bool) :
    Exchange σ :=
  { e with response := ⟨head ++ body ++ more, some h, reported⟩ }

theorem sound_behind (hs : Sized head body h) (e : Exchange σ) {more : Bytes} (reported : Bool)
    (hm : ¬ Http.lastChunk <:+: head ++ body ++ more) :
    (e.behind head body more h reported).response.Sound :=
  ⟨hs.headOf_append more, hm⟩

theorem observe_behind (hs : Sized head body h) (dumping blocked : Bool) (e : Exchange Stream)
    (reported : Bool) :
    ∃ published reported', ∃ e' : Exchange Stream, ∀ more,
      (e.behind head body more h reported).observe (Stream.interceptor dumping blocked) =
        (published, e'.behind head body more h reported') := by
  by_cases herr : 400 ≤ h.status.code
  · cases reported with
    | true => exact ⟨[], true, e, fun more => by simp [observe, behind, herr]⟩
    | false =>
      exact ⟨[.ofStatus h.status.code h.status.reason], true, e,
        fun more => by simp [observe, behind, herr]⟩
  · cases hr : e.state.response ((head ++ body).drop h.bodyStart) h.headers with
    | mk result s =>
      cases result with
      | ok report =>
        exact ⟨[.data e.requested report], reported, { e with state := s },
          fun more => by
            simp only [observe, behind, if_neg herr, Stream.interceptor, hs.response_append, hr]⟩
      | error =>
        exact ⟨[], reported, { e with state := s },
          fun more => by
            simp only [observe, behind, if_neg herr, Stream.interceptor, hs.response_append, hr]⟩

/-- What is told of a read behind such a response does not depend on the read. -/
theorem fromOrigin_behind (hs : Sized head body h) (dumping blocked : Bool) (e : Exchange Stream)
    (reported : Bool) :
    ∃ published reported', ∃ e' : Exchange Stream, ∀ more chunk,
      ¬ Http.lastChunk <:+: head ++ body ++ (more ++ chunk) →
      (e.behind head body more h reported).fromOrigin (Stream.interceptor dumping blocked) chunk =
        .ok (published, e'.behind head body (more ++ chunk) h reported') := by
  have hstep (more chunk : Bytes) (hm : ¬ Http.lastChunk <:+: head ++ body ++ (more ++ chunk)) :
      (e.behind head body more h reported).fromOrigin (Stream.interceptor dumping blocked) chunk =
        .ok (let seen := e.behind head body (more ++ chunk) h reported
          let told := if e.tapping then seen.observe (Stream.interceptor dumping blocked)
            else ([], seen)
          (told.1, told.2.behind head body (more ++ chunk) h told.2.response.reported)) := by
    have hmore : ¬ Http.lastChunk <:+: head ++ body ++ more := by
      rw [← List.append_assoc] at hm
      exact fun hin => hm (hin.trans List.infix_append_left)
    have hseen : (e.behind head body more h reported).response.buffer ++ chunk =
        head ++ body ++ (more ++ chunk) := List.append_assoc _ _ _
    rw [fromOrigin_eq _ (sound_behind hs e reported hmore), hseen, hs.headOf_append]
    simp only [Except.map, Response.keep_of_unmarked (Response.marked_eq_false_iff.mpr hm)]
    rfl
  cases ht : e.tapping with
  | false => exact ⟨[], reported, e, fun more chunk hm => by rw [hstep more chunk hm, ht]; rfl⟩
  | true =>
    obtain ⟨published, reported', e', hobs⟩ := observe_behind hs dumping blocked e reported
    refine ⟨published, reported', e', fun more chunk hm => ?_⟩
    simp only [hstep more chunk hm, ht, if_true, hobs]
    rfl

end Exchange

/-- A run behind such a response: as long as the marker does not come, it is as if nothing did. -/
theorem run_behind (hs : Sized head body h) (clock : Clock) (e : Exchange Stream) {more : Bytes}
    (reported : Bool) {reads : List Read}
    (hm : ¬ Http.lastChunk <:+: head ++ body ++ (more ++ bytesFrom .origin reads)) :
    ((⟨clock, .tapped (e.behind head body more h reported)⟩ : Tunnel Stream).run
        (Stream.interceptor dumping blocked) reads).map told =
      ((⟨clock, .tapped (e.behind head body [] h reported)⟩ : Tunnel Stream).run
        (Stream.interceptor dumping blocked) (reads.map Read.hollow)).map told := by
  induction reads generalizing clock e more reported with
  | nil => rfl
  | cons r rest ih =>
    obtain ⟨side, bytes, moment, time⟩ := r
    cases hd : clock.deadline with
    | error crash =>
      rw [List.map_cons, run_cons, run_cons, step_of_late hd, step_of_late hd]
    | ok d =>
      cases side with
      | client =>
        have hstep (more : Bytes) := step_client hd (Stream.interceptor dumping blocked)
          (e.behind head body more h reported) (r := ⟨.client, bytes, moment, time⟩) rfl
        simp only [Exchange.behind, Exchange.fromClient_response] at hstep
        exact told_run_cons (hstep more) (hstep []) rfl (ih (clock.touch moment) _ reported hm)
      | origin =>
        obtain ⟨published, reported', e', hread⟩ :=
          Exchange.fromOrigin_behind hs dumping blocked e reported
        have hbytes : bytesFrom .origin (⟨.origin, bytes, moment, time⟩ :: rest) =
          bytes ++ bytesFrom .origin rest := rfl
        rw [hbytes, ← List.append_assoc more] at hm
        have hunmarked {piece : Bytes} (hp : piece <+: more ++ bytes ++ bytesFrom .origin rest) :
            ¬ Http.lastChunk <:+: head ++ body ++ piece :=
          fun hin => hm (hin.trans ((List.prefix_append_right_inj _).mpr hp).isInfix)
        have hstep := step_origin hd (Stream.interceptor dumping blocked)
          (e.behind head body more h reported) (r := ⟨.origin, bytes, moment, time⟩) rfl
        have hstep' := step_origin hd (Stream.interceptor dumping blocked)
          (e.behind head body [] h reported) (r := ⟨.origin, [], moment, time⟩) rfl
        rw [hread more bytes (hunmarked (List.prefix_append _ _))] at hstep
        rw [hread [] [] (hunmarked List.nil_prefix)] at hstep'
        exact told_run_cons hstep hstep' rfl (ih (clock.touch moment) e' reported' hm)

/-- If nothing was kept before it, the response with a Content-Length is all that is told of from
there on: until a marker comes, what the origin sends makes no difference to what is published. -/
theorem run_unread (hs : Sized head body h) {host : String} {markers : List String}
    {clock now : Clock} {earlier first : List Read} (hempty : kept [] earlier = [])
    (hfirst : bytesFrom .origin first = head ++ body) {out : Output} {e : Exchange Stream}
    (hrun : (tappedTunnel (Stream.interceptor dumping blocked) host markers clock).run
      (Stream.interceptor dumping blocked) (earlier ++ first) = .ok (out, ⟨now, .tapped e⟩))
    {later : List Read} (hm : ¬ Http.lastChunk <:+: head ++ body ++ bytesFrom .origin later) :
    ((⟨now, .tapped e⟩ : Tunnel Stream).run (Stream.interceptor dumping blocked) later).map told =
      ((⟨now, .tapped e⟩ : Tunnel Stream).run (Stream.interceptor dumping blocked)
        (later.map Read.hollow)).map told := by
  obtain ⟨hsound, hbuffer⟩ := response_run hrun
  rw [hs.kept_append hfirst, hempty, List.nil_append] at hbuffer
  have hhead : e.response.head = some h := by
    have hof := hsound.head
    rw [hbuffer, ← List.append_nil (head ++ body), hs.headOf_append] at hof
    exact (Except.ok.inj hof).symm
  have hresponse : e.response = ⟨head ++ body ++ [], some h, e.response.reported⟩ := by
    rw [List.append_nil, ← hbuffer, ← hhead]
  have hbehind : e = e.behind head body [] h e.response.reported :=
    congrArg (fun response => { e with response }) hresponse
  rw [hbehind]
  exact run_behind hs now e e.response.reported hm

end

/-! ## A tapped request behind a response with a Content-Length -/

/-- Behind a response with a Content-Length all that was kept still is, that response too, and a
tapped request makes no new connection of it. Whatever is read from there on, in whatever pieces
and at whatever times, it publishes, up to the times, what a new connection publishes if the
bytes that are kept come before those of the next response; but an error status of theirs that
has been published is not published again. -/
theorem run_carried {dumping blocked : Bool} {host : String} {markers : List String}
    {clock now : Clock} {head body : Bytes} {h : Http.ResponseHead} (hsized : Sized head body h)
    {earlier first : List Read} (hfirst : bytesFrom .origin first = head ++ body) {out : Output}
    {e : Exchange Stream}
    (hrun : (tappedTunnel (Stream.interceptor dumping blocked) host markers clock).run
      (Stream.interceptor dumping blocked) (earlier ++ first) = .ok (out, ⟨now, .tapped e⟩))
    {request : Read} (htaps : request.Taps markers) {later reads : List Read}
    (hreads : (request :: later).map Read.untimed = reads.map Read.untimed) :
    let carried := kept [] earlier ++ (head ++ body)
    let anew : Exchange Stream :=
      { Exchange.fresh (Stream.interceptor dumping blocked) host markers with
        response := ⟨[], none, e.response.reported⟩ }
    e.response.buffer = carried ∧
    (e.response.reported = true →
      ∃ h, Response.headOf carried = .ok (some h) ∧ h.isError = true) ∧
    ((⟨now, .tapped e⟩ : Tunnel Stream).run (Stream.interceptor dumping blocked)
        (request :: later)).map (List.map Envelope.untimed ∘ told) =
      ((⟨now, .tapped anew⟩ : Tunnel Stream).run (Stream.interceptor dumping blocked)
        (preceded carried reads)).map (List.map Envelope.untimed ∘ told) := by
  intro carried anew
  obtain ⟨hsound, hbuffer⟩ := response_run hrun
  rw [hsized.kept_append hfirst] at hbuffer
  refine ⟨hbuffer, fun hreported => ?_, ?_⟩
  · have herr := quiet_run hrun hreported
    cases hhead : e.response.head with
    | none => rw [hhead] at herr; cases herr
    | some h =>
      rw [hhead] at herr
      refine ⟨h, ?_, herr⟩
      rw [← hhead, ← hsound.head, hbuffer]
  · have hkept := run_of_kept (setUp_run hrun) hsound now htaps hreads
    rwa [hbuffer] at hkept

/-- A response of one frame with a Content-Length. -/
def sized (answer : String) : Bytes × Bytes :=
  (Utf8.encode "HTTP/1.1 200 OK\r\nContent-Length: 23\r\n\r\n",
    Utf8.encode ("[[[null,\"" ++ answer ++ "\"]],\"model\"]"))

def sizedHead : Http.ResponseHead :=
  ⟨(sized "hi").1.length, .ok, ⟨[⟨Http.contentLength, Utf8.encode "23"⟩]⟩⟩

theorem sized_hi : Sized (sized "hi").1 (sized "hi").2 sizedHead where
  ends := by decide +kernel
  parses := by decide +kernel
  begins := by decide +kernel
  unchunked := by decide +kernel
  length := by decide +kernel
  unmarked := by decide +kernel

/-- A read of all of such a response. -/
def Read.ofSized (answer : String) : Read := .ofOrigin ((sized answer).1 ++ (sized answer).2)

theorem run_carried_hi :
    let i := Stream.interceptor false false
    let start := tappedTunnel i "localhost" ["/ask"] ⟨some 600, 0⟩
    let carried := kept [] [] ++ ((sized "hi").1 ++ (sized "hi").2)
    Sized (sized "hi").1 (sized "hi").2 sizedHead ∧
    bytesFrom .origin [ask, .ofSized "hi"] = (sized "hi").1 ++ (sized "hi").2 ∧
    ask.Taps ["/ask"] ∧
    ∃ out now e, start.run i ([] ++ [ask, .ofSized "hi"]) = .ok (out, ⟨now, .tapped e⟩) ∧
      let anew : Exchange Stream := { Exchange.fresh i "localhost" ["/ask"] with
        response := ⟨[], none, e.response.reported⟩ }
      e.response.buffer = carried ∧
      (e.response.reported = true →
        ∃ h, Response.headOf carried = .ok (some h) ∧ h.isError = true) ∧
      ((⟨now, .tapped e⟩ : Tunnel Stream).run i [ask, .ofSized "yo"]).map
          (List.map Envelope.untimed ∘ told) =
        ((⟨now, .tapped anew⟩ : Tunnel Stream).run i (preceded carried [ask, .ofSized "yo"])).map
          (List.map Envelope.untimed ∘ told) := by
  intro i start carried
  have hfirst : bytesFrom .origin [ask, .ofSized "hi"] = (sized "hi").1 ++ (sized "hi").2 := by
    decide +kernel
  obtain ⟨out, now, e, hrun⟩ := exists_of_isOk i "localhost" ["/ask"] ⟨some 600, 0⟩
    ([] ++ [ask, .ofSized "hi"]) (by decide +kernel)
  exact ⟨sized_hi, hfirst, taps_ask, out, now, e, hrun,
    run_carried sized_hi hfirst hrun taps_ask rfl⟩

/-- The answer text of an envelope, or its error message. -/
def answerOf : Envelope → String
  | .data _ report => report.body
  | .error _ _ message _ => message

/-- The answers that a run has published. -/
def answers (result : Except Crash (Output × Tunnel σ)) : Option (List String) :=
  (result.map (List.map Envelope.untimed ∘ told)).toOption.map (List.map answerOf)

/-- Two requests, and `hi` is the answer to both, though the second one was answered `yo`. -/
theorem not_renewed_sized :
    let i := Stream.interceptor false false
    Sized (sized "hi").1 (sized "hi").2 sizedHead ∧ ask.Taps ["/ask"] ∧
    ∃ out now e,
      (tappedTunnel i "localhost" ["/ask"] ⟨some 600, 0⟩).run i [ask, .ofSized "hi"] =
        .ok (out, ⟨now, .tapped e⟩) ∧
      answers ((⟨now, .tapped e⟩ : Tunnel Stream).run i [ask, .ofSized "yo"]) = some ["hi"] ∧
      answers ((tappedTunnel i "localhost" ["/ask"] now).run i [ask, .ofSized "yo"]) =
        some ["yo"] ∧
      ((⟨now, .tapped e⟩ : Tunnel Stream).run i [ask, .ofSized "yo"]).map
          (List.map Envelope.untimed ∘ told) ≠
        ((tappedTunnel i "localhost" ["/ask"] now).run i [ask, .ofSized "yo"]).map
          (List.map Envelope.untimed ∘ told) := by
  intro i
  obtain ⟨out, now, e, hrun⟩ := exists_of_isOk i "localhost" ["/ask"] ⟨some 600, 0⟩
    [ask, .ofSized "hi"] (by decide +kernel)
  have hclock : ((tappedTunnel i "localhost" ["/ask"] ⟨some 600, 0⟩).run i
      [ask, .ofSized "hi"]).toOption.map (fun result => result.2.clock) = some ⟨some 600, 0⟩ := by
    decide +kernel
  have hagain : answers (((tappedTunnel i "localhost" ["/ask"] ⟨some 600, 0⟩).run i
      [ask, .ofSized "hi"]).bind fun (_, t) => t.run i [ask, .ofSized "yo"]) = some ["hi"] := by
    decide +kernel
  rw [hrun] at hclock hagain
  simp only [Except.bind] at hagain
  have hnow : some now = some ⟨some 600, 0⟩ := hclock
  cases hnow
  have hfirst : answers ((tappedTunnel i "localhost" ["/ask"] ⟨some 600, 0⟩).run i
      [ask, .ofSized "yo"]) = some ["yo"] := by decide +kernel
  refine ⟨sized_hi, taps_ask, out, _, e, hrun, hagain, hfirst, fun hsame => ?_⟩
  have heq : some ["hi"] = some ["yo"] := by
    rw [← hfirst, answers, ← hsame]
    exact hagain.symm
  exact absurd heq (by decide)

end Tunnel

end Wiretap
