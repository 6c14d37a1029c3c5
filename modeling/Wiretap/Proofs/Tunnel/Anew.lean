import Wiretap.Proofs.Tunnel.Requests

/-!
# A tap that keeps bytes only

A tap need keep nothing of a response but its bytes: at every read it can look for the
head in all of them, read it anew, and look for the marker in all of them
(`fromOriginAnew`). The tap that keeps the head it has found and looks for the marker in
the last bytes does the same at every read (`fromOrigin_anew`) and so in every run: it
makes the same calls, publishes and sends the same, and forgets at the same reads
(`run_headless`).
-/

namespace Wiretap.Tunnel

variable {σ : Type}

namespace Exchange

/-- What is published of all bytes that are kept, in which the head is sought and read anew. -/
def observeAnew (i : Interceptor σ) (e : Exchange σ) (seen : Bytes) :
    Except Crash (List Envelope × Exchange σ) :=
  match Http.headerEnd seen with
  | none => .ok ([], e)
  | some n =>
    (Http.ResponseHead.parse (seen.take n)).map fun head =>
      if e.tapping = false then ([], e)
      else if 400 ≤ head.status.code then
        if e.response.reported then ([], e)
        else
          ([.ofStatus head.status.code head.status.reason],
            { e with response := { e.response with reported := true } })
      else
        match i.response e.state (seen.drop n) e.host "" head.headers with
        | (.ok report, state) => ([.data e.requested report], { e with state })
        | (.error _, state) => ([], { e with state })

/-- A read from the origin by a tap that keeps bytes, and whether an error status has been
published of them. Wherever the marker stands in them they are forgotten. -/
def fromOriginAnew (i : Interceptor σ) (e : Exchange σ) (chunk : Bytes) :
    Except Crash (List Envelope × Exchange σ) :=
  let seen := e.response.buffer ++ chunk
  (e.observeAnew i seen).map fun (published, e) =>
    (published, { e with response :=
      if (Bytes.find seen Http.lastChunk).isSome then .fresh
      else ⟨seen, none, e.response.reported⟩ })

/-- Without the head that has been found. -/
def headless (e : Exchange σ) : Exchange σ :=
  { e with response := { e.response with head := none } }

theorem headless_fromClient (i : Interceptor σ) (e : Exchange σ) (now : Number.Double)
    (chunk : Bytes) :
    e.headless.fromClient i now chunk =
      ((e.fromClient i now chunk).1, (e.fromClient i now chunk).2.headless) := by
  obtain ⟨hresp, -, -⟩ := fromClient_frame i e now chunk
  rw [headless, fromClient_response, headless, hresp]

theorem headless_keep (e : Exchange σ) (seen : Bytes) (head : Option Http.ResponseHead)
    (reported : Bool) :
    ({ e with response := Response.keep seen head reported } : Exchange σ).headless =
      { e with response :=
        if (Bytes.find seen Http.lastChunk).isSome then .fresh else ⟨seen, none, reported⟩ } := by
  unfold Response.keep Response.marked headless
  split <;> rfl

/-- Of the same bytes the same is published, whether the head is at hand or sought anew. -/
theorem observeAnew_eq (i : Interceptor σ) (e : Exchange σ) (seen : Bytes) :
    e.headless.observeAnew i seen = (Response.headOf seen).map fun head =>
      let e₁ := { e with response := ⟨seen, head, e.response.reported⟩ }
      let told := if e.tapping then e₁.observe i else ([], e₁)
      (told.1, { told.2 with
        response := ⟨e.response.buffer, none, told.2.response.reported⟩ }) := by
  cases hn : Http.headerEnd seen with
  | none =>
    rw [Response.headOf_eq_none hn, observeAnew, hn]
    cases ht : e.tapping <;> simp [Except.map, observe, headless, ht]
  | some n =>
    rw [Response.headOf_eq_parse hn, observeAnew, hn]
    cases hp : Http.ResponseHead.parse (seen.take n) with
    | error =>
      simp only [hp]
      rfl
    | ok head =>
      have hstart : head.bodyStart = n := by
        rw [Response.bodyStart_of_parse hp, List.length_take_of_le (Http.headerEnd_le hn)]
      cases ht : e.tapping with
      | false => simp [Except.map, headless, hp, ht]
      | true =>
        by_cases herr : 400 ≤ head.status.code
        · cases hr : e.response.reported <;> simp [Except.map, headless, observe, hp, ht, herr, hr]
        · simp only [Except.map, headless, observe, hp, ht, herr, hstart, if_true, if_false,
            Bool.true_eq_false]
          generalize i.response e.state (seen.drop n) e.host "" head.headers = answer
          obtain ⟨result | report, state⟩ := answer <;> rfl

/-- One read. -/
theorem fromOrigin_anew (i : Interceptor σ) {e : Exchange σ} (hs : e.response.Sound)
    (chunk : Bytes) :
    (e.fromOrigin i chunk).map (Prod.map id headless) = e.headless.fromOriginAnew i chunk := by
  have hseen : e.headless.response.buffer = e.response.buffer := rfl
  rw [fromOrigin_eq i hs, fromOriginAnew, hseen, observeAnew_eq]
  cases Response.headOf (e.response.buffer ++ chunk) with
  | error => rfl
  | ok head =>
    simp only [Except.map, Prod.map, id, headless_keep]

end Exchange

/-- A read through a tunnel whose tap keeps bytes only; all else is as in `step`. -/
def stepAnew (i : Interceptor σ) (t : Tunnel σ) (r : Read) : Except Crash (Output × Tunnel σ) :=
  match t.relay, r.side with
  | .tapped e, .origin => do
    let _ ← t.clock.deadline
    let (published, e) ← e.fromOriginAnew i r.bytes
    return (⟨r.bytes, [], published⟩, ⟨t.clock.touch r.moment, .tapped e⟩)
  | _, _ => t.step i r

def runAnew (i : Interceptor σ) (t : Tunnel σ) : List Read → Except Crash (Output × Tunnel σ)
  | [] => .ok (.none, t)
  | r :: rest => do
    let (output, t) ← t.stepAnew i r
    let (outputs, t) ← t.runAnew i rest
    return (output ++ outputs, t)

/-- Without the head that its tap has found. -/
def headless (t : Tunnel σ) : Tunnel σ :=
  match t.relay with
  | .blind => t
  | .tapped e => { t with relay := .tapped e.headless }

theorem step_headless (i : Interceptor σ) (clock : Clock) {e : Exchange σ}
    (hs : e.response.Sound) (r : Read) :
    ((⟨clock, .tapped e⟩ : Tunnel σ).step i r).map (Prod.map id headless) =
      (⟨clock, .tapped e.headless⟩ : Tunnel σ).stepAnew i r := by
  cases hd : clock.deadline with
  | error crash =>
    rw [step_of_late hd]
    cases hr : r.side with
    | client =>
      simp only [stepAnew, hr]
      rw [step_of_late hd]
      rfl
    | origin =>
      simp only [stepAnew, hr, hd]
      rfl
  | ok d =>
    cases hr : r.side with
    | client =>
      simp only [stepAnew, hr]
      rw [step_client hd i e hr, step_client hd i e.headless hr, Exchange.headless_fromClient]
      rfl
    | origin =>
      simp only [stepAnew, hr, hd]
      rw [step_origin hd i e hr, ← Exchange.fromOrigin_anew i hs]
      cases e.fromOrigin i r.bytes <;> rfl

/-- A sound tap stays sound. -/
theorem sound_step {i : Interceptor σ} {clock : Clock} {e : Exchange σ} (hs : e.response.Sound)
    {r : Read} {out : Output} {t : Tunnel σ}
    (h : (⟨clock, .tapped e⟩ : Tunnel σ).step i r = .ok (out, t)) :
    ∃ now e', t = ⟨now, .tapped e'⟩ ∧ e'.response.Sound := by
  cases hd : clock.deadline with
  | error crash =>
    rw [step_of_late hd] at h
    cases h
  | ok d =>
    cases hr : r.side with
    | client =>
      rw [step_client hd i e hr] at h
      cases h
      refine ⟨_, _, rfl, ?_⟩
      rw [(fromClient_frame i e r.time r.bytes).1]
      exact hs
    | origin =>
      rw [step_origin hd i e hr] at h
      cases ho : e.fromOrigin i r.bytes with
      | error crash =>
        rw [ho] at h
        cases h
      | ok told =>
        rw [ho] at h
        cases h
        exact ⟨_, _, rfl, Exchange.sound_fromOrigin hs ho⟩

/-- Every run from a sound tap. -/
theorem run_headless_of_sound (i : Interceptor σ) (clock : Clock) {e : Exchange σ}
    (hs : e.response.Sound) (reads : List Read) :
    ((⟨clock, .tapped e⟩ : Tunnel σ).run i reads).map (Prod.map id headless) =
      (⟨clock, .tapped e.headless⟩ : Tunnel σ).runAnew i reads := by
  induction reads generalizing clock e with
  | nil => rfl
  | cons r rest ih =>
    rw [run_cons, runAnew, ← step_headless i clock hs r]
    cases hstep : (⟨clock, .tapped e⟩ : Tunnel σ).step i r with
    | error crash => rfl
    | ok told =>
      obtain ⟨out, t⟩ := told
      obtain ⟨now, e', rfl, hs'⟩ := sound_step hs hstep
      have hrest := ih now hs'
      simp only [Except.map, Prod.map, id, bind, Except.bind, headless] at hrest ⊢
      rw [← hrest]
      cases (⟨now, .tapped e'⟩ : Tunnel σ).run i rest <;> rfl

/-- Whatever is read of either side, and whoever watches: the tap that remembers the head makes
the calls, publishes and sends what the one does that keeps bytes only, and after every run the
two keep the same bytes. -/
theorem run_headless (i : Interceptor σ) (host : String) (markers : List String) (clock : Clock)
    (reads : List Read) :
    ((tappedTunnel i.logged host markers clock).run i.logged reads).map (Prod.map id headless) =
      (tappedTunnel i.logged host markers clock).runAnew i.logged reads :=
  run_headless_of_sound i.logged clock Response.sound_fresh reads

end Wiretap.Tunnel
