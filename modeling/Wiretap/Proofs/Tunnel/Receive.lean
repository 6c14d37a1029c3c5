import Wiretap.Proofs.Tunnel.Response
import Wiretap.Tunnel.Relay

/-!
# Reading a response

`receive` takes reads from the origin one after another and lists what is published
at each; it is `run` on reads from the origin alone (`run_eq_receive`). One read is
described by what has been seen since the buffer was last emptied and by the head
that stands at its front (`fromOrigin_eq`); while the last request was a tapped one,
`hear` says what is published of it (`fromOrigin_eq_hear`). Nothing is before a head is
complete (`receive_headless`), and of a response with a crowded head nothing ever is
(`receive_crowded`).
-/

namespace Wiretap.Tunnel

/-- Some read is the one with which so many bytes are there. -/
theorem exists_read {n : Nat} {chunks : List Bytes} (hpos : 0 < n)
    (hle : n ≤ chunks.flatten.length) :
    ∃ before chunk after, chunks = before ++ chunk :: after ∧ before.flatten.length < n ∧
      n ≤ before.flatten.length + chunk.length := by
  induction chunks generalizing n with
  | nil => exact absurd hle (Nat.not_le_of_lt hpos)
  | cons chunk rest ih =>
    by_cases hc : n ≤ chunk.length
    · exact ⟨[], chunk, rest, rfl, hpos, by simpa using hc⟩
    · rw [List.flatten_cons, List.length_append] at hle
      obtain ⟨before, c, after, rfl, hlt, hle'⟩ :=
        ih (show 0 < n - chunk.length by omega) (by omega)
      refine ⟨chunk :: before, c, after, rfl, ?_, ?_⟩
      · rw [List.flatten_cons, List.length_append]
        omega
      · rw [List.flatten_cons, List.length_append]
        omega

namespace Response

/-- The marker that ends a chunked body has been seen. -/
def marked (seen : Bytes) : Bool := (Bytes.find seen Http.lastChunk).isSome

theorem marked_iff {seen : Bytes} : marked seen ↔ Http.lastChunk <:+: seen :=
  Bytes.isSome_find_iff Http.lastChunk_ne_nil

theorem marked_eq_false_iff {seen : Bytes} : marked seen = false ↔ ¬ Http.lastChunk <:+: seen := by
  rw [← marked_iff, Bool.not_eq_true]

theorem marked_eq_false_of_append {s t : Bytes} (h : marked (s ++ t) = false) :
    marked s = false := by
  rw [marked_eq_false_iff] at h ⊢
  exact fun hin => h (hin.trans List.infix_append_left)

/-- The marker ends as a head does. -/
theorem marked_eq_false_of_headless {seen : Bytes} (h : ¬ Http.headerTerminator <:+: seen) :
    marked seen = false := by
  rw [marked_eq_false_iff]
  exact fun hin => h ((show Http.headerTerminator <:+: Http.lastChunk by decide).trans hin)

/-- What is kept of what has been seen. -/
def keep (seen : Bytes) (head : Option Http.ResponseHead) (reported : Bool) : Response :=
  if marked seen then fresh else ⟨seen, head, reported⟩

theorem keep_of_marked {seen : Bytes} (h : marked seen) (head : Option Http.ResponseHead)
    (reported : Bool) : keep seen head reported = fresh := if_pos h

theorem keep_of_unmarked {seen : Bytes} (h : marked seen = false)
    (head : Option Http.ResponseHead) (reported : Bool) :
    keep seen head reported = ⟨seen, head, reported⟩ := if_neg (by rw [h]; decide)

theorem sound_keep {seen : Bytes} {head : Option Http.ResponseHead} (h : headOf seen = .ok head)
    (reported : Bool) : (keep seen head reported).Sound := by
  cases hm : marked seen with
  | true => exact keep_of_marked hm head reported ▸ sound_fresh
  | false =>
    rw [keep_of_unmarked hm]
    exact ⟨h, marked_eq_false_iff.mp hm⟩

end Response

namespace Exchange

variable {σ : Type}

/-- Reads from the origin, and what is published at each. -/
def receive (i : Interceptor σ) (e : Exchange σ) :
    List Bytes → Except Crash (List (List Envelope) × Exchange σ)
  | [] => .ok ([], e)
  | chunk :: rest =>
    match e.fromOrigin i chunk with
    | .error crash => .error crash
    | .ok (published, e) =>
      match receive i e rest with
      | .error crash => .error crash
      | .ok (later, e) => .ok (published :: later, e)

theorem receive_cons_ok {i : Interceptor σ} {e e' : Exchange σ} {chunk : Bytes}
    {rest : List Bytes} {outs : List (List Envelope)} :
    e.receive i (chunk :: rest) = .ok (outs, e') ↔
      ∃ published e₁ later, e.fromOrigin i chunk = .ok (published, e₁) ∧
        e₁.receive i rest = .ok (later, e') ∧ outs = published :: later := by
  rw [receive]
  constructor
  · intro h
    split at h
    · cases h
    · rename_i published e₁ hs
      split at h
      · cases h
      · rename_i later e₂ hr
        cases h
        exact ⟨published, e₁, later, hs, hr, rfl⟩
  · rintro ⟨published, e₁, later, hs, hr, rfl⟩
    simp only [hs, hr]

theorem receive_append_ok {i : Interceptor σ} {e e' : Exchange σ} {before after : List Bytes}
    {outs : List (List Envelope)} :
    e.receive i (before ++ after) = .ok (outs, e') ↔
      ∃ earlier e₁ later, e.receive i before = .ok (earlier, e₁) ∧
        e₁.receive i after = .ok (later, e') ∧ outs = earlier ++ later := by
  induction before generalizing e outs with
  | nil => simp [receive]
  | cons chunk rest ih =>
    rw [List.cons_append, receive_cons_ok]
    constructor
    · rintro ⟨published, e₁, later, hs, hr, rfl⟩
      obtain ⟨earlier, e₂, last, hr₁, hr₂, rfl⟩ := ih.mp hr
      exact ⟨published :: earlier, e₂, last, receive_cons_ok.mpr ⟨_, _, _, hs, hr₁, rfl⟩, hr₂, rfl⟩
    · rintro ⟨earlier, e₂, last, hr₁, hr₂, rfl⟩
      obtain ⟨published, e₁, later, hs, hr, rfl⟩ := receive_cons_ok.mp hr₁
      exact ⟨published, e₁, later ++ last, hs, ih.mpr ⟨_, _, _, hr, hr₂, rfl⟩, rfl⟩

theorem observe_response (i : Interceptor σ) (e : Exchange σ) :
    ∃ reported, (e.observe i).2.response = { e.response with reported } := by
  unfold observe
  split
  · exact ⟨e.response.reported, rfl⟩
  · split
    · split
      · exact ⟨e.response.reported, rfl⟩
      · exact ⟨true, rfl⟩
    · simp only
      split <;> exact ⟨e.response.reported, rfl⟩

/-- One read: the head is sought in all that has been seen, and so is the marker. -/
theorem fromOrigin_eq (i : Interceptor σ) {e : Exchange σ} (hs : e.response.Sound)
    (chunk : Bytes) :
    e.fromOrigin i chunk = (Response.headOf (e.response.buffer ++ chunk)).map fun head =>
      let seen := e.response.buffer ++ chunk
      let e₁ := { e with response := ⟨seen, head, e.response.reported⟩ }
      let told := if e.tapping then e₁.observe i else ([], e₁)
      (told.1, { told.2 with response := Response.keep seen head told.2.response.reported }) := by
  unfold fromOrigin
  rw [Response.append_eq hs]
  cases Response.headOf (e.response.buffer ++ chunk) with
  | error => rfl
  | ok head =>
    simp only [Except.map]
    generalize hp : (if e.tapping = true then
      observe i { e with response := ⟨e.response.buffer ++ chunk, head, e.response.reported⟩ }
      else ([], { e with response := ⟨e.response.buffer ++ chunk, head, e.response.reported⟩ })) = p
    obtain ⟨reported, hr⟩ : ∃ reported,
        p.2.response = ⟨e.response.buffer ++ chunk, head, reported⟩ := by
      subst hp
      split
      · exact observe_response i _
      · exact ⟨_, rfl⟩
    have hends : p.2.response.ends chunk.length = Response.marked (e.response.buffer ++ chunk) := by
      rw [Bool.eq_iff_iff, hr, Response.ends_iff hs.unmarked, Response.marked_iff]
    rw [hends]
    cases hm : Response.marked (e.response.buffer ++ chunk) with
    | true => simp [Response.keep_of_marked hm]
    | false =>
      obtain ⟨published, ⟨_, _, _, _, _, _⟩⟩ := p
      cases hr
      rw [Response.keep_of_unmarked hm]
      rfl

/-- What one read leaves of the response, whether it is observed or not. -/
theorem fromOrigin_response (i : Interceptor σ) {e : Exchange σ} (hs : e.response.Sound)
    (chunk : Bytes) {head : Option Http.ResponseHead}
    (hh : Response.headOf (e.response.buffer ++ chunk) = .ok head) :
    ∃ published e' reported, e.fromOrigin i chunk = .ok (published, e') ∧
      e'.response = Response.keep (e.response.buffer ++ chunk) head reported := by
  rw [fromOrigin_eq i hs chunk, hh]
  exact ⟨_, _, _, rfl, rfl⟩

theorem fromOrigin_crash (i : Interceptor σ) {e : Exchange σ} (hs : e.response.Sound)
    (chunk : Bytes) {crash : Crash}
    (hh : Response.headOf (e.response.buffer ++ chunk) = .error crash) :
    e.fromOrigin i chunk = .error crash := by
  rw [fromOrigin_eq i hs chunk, hh]
  rfl

/-- What every read preserves a run preserves. -/
theorem receive_invariant {i : Interceptor σ} {P : Exchange σ → Prop}
    (hstep : ∀ {e e' : Exchange σ} {chunk : Bytes} {published : List Envelope}, P e →
      e.fromOrigin i chunk = .ok (published, e') → P e')
    {e e' : Exchange σ} (hp : P e) {chunks : List Bytes} {outs : List (List Envelope)}
    (h : e.receive i chunks = .ok (outs, e')) : P e' := by
  induction chunks generalizing e outs with
  | nil => cases h; exact hp
  | cons chunk rest ih =>
    obtain ⟨published, e₁, later, hs, hr, rfl⟩ := receive_cons_ok.mp h
    exact ih (hstep hp hs) hr

theorem sound_fromOrigin {i : Interceptor σ} {e e' : Exchange σ} (hs : e.response.Sound)
    {chunk : Bytes} {published : List Envelope} (h : e.fromOrigin i chunk = .ok (published, e')) :
    e'.response.Sound := by
  cases hh : Response.headOf (e.response.buffer ++ chunk) with
  | error => rw [fromOrigin_crash i hs chunk hh] at h; cases h
  | ok head =>
    obtain ⟨published', e₁, reported, hstep, he⟩ := fromOrigin_response i hs chunk hh
    rw [hstep] at h
    cases h
    exact he ▸ Response.sound_keep hh reported

theorem receive_sound {i : Interceptor σ} {e e' : Exchange σ} (hs : e.response.Sound)
    {chunks : List Bytes} {outs : List (List Envelope)}
    (h : e.receive i chunks = .ok (outs, e')) : e'.response.Sound :=
  receive_invariant (P := fun e => e.response.Sound) (fun hs hstep => sound_fromOrigin hs hstep)
    hs h

/-- Until the marker has been seen, all that was read is kept. -/
theorem receive_unmarked (i : Interceptor σ) {e : Exchange σ} (hs : e.response.Sound)
    {chunks : List Bytes} (hm : Response.marked (e.response.buffer ++ chunks.flatten) = false)
    {head : Option Http.ResponseHead}
    (hh : Response.headOf (e.response.buffer ++ chunks.flatten) = .ok head) :
    ∃ outs e', e.receive i chunks = .ok (outs, e') ∧
      e'.response.buffer = e.response.buffer ++ chunks.flatten := by
  induction chunks generalizing e with
  | nil => exact ⟨[], e, rfl, (List.append_nil _).symm⟩
  | cons chunk rest ih =>
    rw [List.flatten_cons, ← List.append_assoc] at hm hh
    obtain ⟨head₁, hh₁⟩ := Response.headOf_ok_of_append hh
    obtain ⟨published, e₁, reported, hstep, he⟩ := fromOrigin_response i hs chunk hh₁
    rw [Response.keep_of_unmarked (Response.marked_eq_false_of_append hm)] at he
    have hbuf : e₁.response.buffer = e.response.buffer ++ chunk := by rw [he]
    have hsound : e₁.response.Sound := by
      rw [he]
      exact ⟨hh₁, Response.marked_eq_false_iff.mp (Response.marked_eq_false_of_append hm)⟩
    obtain ⟨later, e', hr, hbuf'⟩ := ih hsound (by rwa [hbuf]) (by rwa [hbuf])
    refine ⟨published :: later, e', receive_cons_ok.mpr ⟨_, _, _, hstep, hr, rfl⟩, ?_⟩
    rw [hbuf', hbuf, List.flatten_cons, List.append_assoc]

/-! ## While the last request was a tapped one -/

/-- What is published of what has been seen, and the interceptor's state after it. -/
def hear (i : Interceptor σ) (e : Exchange σ) (seen : Bytes) :
    Option Http.ResponseHead → List Envelope × σ
  | none => ([], e.state)
  | some h =>
    if h.isError then
      (if e.response.head.isSome then [] else [.ofStatus h.status.code h.status.reason], e.state)
    else
      match i.response e.state (seen.drop h.bodyStart) e.host "" h.headers with
      | (.ok report, state) => ([.data e.requested report], state)
      | (.error _, state) => ([], state)

theorem hear_of_report {i : Interceptor σ} {e : Exchange σ} {h : Http.ResponseHead}
    {seen : Bytes} (hh : h.isError = false) {report : Report} {state : σ}
    (hr : i.response e.state (seen.drop h.bodyStart) e.host "" h.headers = (.ok report, state)) :
    e.hear i seen (some h) = ([.data e.requested report], state) := by
  simp [hear, hh, hr]

theorem hear_state {i : Interceptor σ} {e : Exchange σ} {h : Http.ResponseHead}
    (hh : h.isError = false) (seen : Bytes) :
    (e.hear i seen (some h)).2 =
      (i.response e.state (seen.drop h.bodyStart) e.host "" h.headers).2 := by
  simp only [hear, hh, Bool.false_eq_true, if_false]
  split <;> simp_all

/-- A tapped request has been read, and of its response what the buffer says. -/
structure Listening (e : Exchange σ) : Prop where
  tapping : e.tapping = true
  sound : e.response.Sound
  reported : e.response.reported = e.response.head.any Http.ResponseHead.isError

theorem listening_of_fresh {e : Exchange σ} (ht : e.tapping = true) (hf : e.response = .fresh) :
    e.Listening := ⟨ht, hf ▸ Response.sound_fresh, by rw [hf]; rfl⟩

theorem observe_eq_hear (i : Interceptor σ) {e : Exchange σ} (hl : e.Listening) {seen : Bytes}
    {head : Option Http.ResponseHead} (hkept : ∀ h, e.response.head = some h → head = some h) :
    ({ e with response := ⟨seen, head, e.response.reported⟩ } : Exchange σ).observe i =
      ((e.hear i seen head).1, { e with
        state := (e.hear i seen head).2
        response := ⟨seen, head, head.any Http.ResponseHead.isError⟩ }) := by
  cases head with
  | none =>
    have hnone : e.response.head = none := by
      cases hh : e.response.head with
      | none => rfl
      | some h => cases hkept h hh
    simp [observe, hear, hl.reported, hnone]
  | some h =>
    simp only [observe, hear, Http.ResponseHead.isError, decide_eq_true_eq, hl.reported]
    by_cases hc : 400 ≤ h.status.code
    · cases hh : e.response.head with
      | none => simp [hc, Http.ResponseHead.isError]
      | some h' =>
        cases hkept h' hh
        simp [hc, Http.ResponseHead.isError]
    · have hany : e.response.head.any Http.ResponseHead.isError = false := by
        cases hh : e.response.head with
        | none => rfl
        | some h' =>
          cases hkept h' hh
          simp [hc, Http.ResponseHead.isError]
      rw [if_neg hc, if_neg hc, hany]
      simp only [Option.any_some, Http.ResponseHead.isError, hc, decide_false]
      generalize i.response e.state (seen.drop h.bodyStart) e.host "" h.headers = result
      obtain ⟨result | report, state⟩ := result <;> rfl

/-- One read while the last request was a tapped one. -/
theorem fromOrigin_eq_hear (i : Interceptor σ) {e : Exchange σ} (hl : e.Listening)
    (chunk : Bytes) :
    e.fromOrigin i chunk = (Response.headOf (e.response.buffer ++ chunk)).map fun head =>
      let seen := e.response.buffer ++ chunk
      ((e.hear i seen head).1, { e with
        state := (e.hear i seen head).2
        response := Response.keep seen head (head.any Http.ResponseHead.isError) }) := by
  rw [fromOrigin_eq i hl.sound]
  cases hh : Response.headOf (e.response.buffer ++ chunk) with
  | error => rfl
  | ok head =>
    have hkept : ∀ h, e.response.head = some h → head = some h := by
      intro h heq
      obtain ⟨n, hn, -⟩ := Response.headerEnd_of_headOf (heq ▸ hl.sound.head)
      rw [Response.headOf_append chunk hn, hl.sound.head, heq] at hh
      cases hh
      rfl
    simp only [Except.map, if_pos hl.tapping, observe_eq_hear i hl hkept]

theorem fromOrigin_of_headOf (i : Interceptor σ) {e : Exchange σ} (hl : e.Listening)
    {chunk seen : Bytes} (hseen : e.response.buffer ++ chunk = seen)
    {head : Option Http.ResponseHead} (hh : Response.headOf seen = .ok head) :
    e.fromOrigin i chunk = .ok ((e.hear i seen head).1, { e with
      state := (e.hear i seen head).2
      response := Response.keep seen head (head.any Http.ResponseHead.isError) }) := by
  rw [fromOrigin_eq_hear i hl, hseen, hh]
  rfl

theorem listening_fromOrigin {i : Interceptor σ} {e e' : Exchange σ} (hl : e.Listening)
    {chunk : Bytes} {published : List Envelope} (h : e.fromOrigin i chunk = .ok (published, e')) :
    e'.Listening := by
  rw [fromOrigin_eq_hear i hl] at h
  cases hh : Response.headOf (e.response.buffer ++ chunk) with
  | error => rw [hh] at h; cases h
  | ok head =>
    rw [hh] at h
    cases h
    refine ⟨hl.tapping, Response.sound_keep hh _, ?_⟩
    simp only
    cases hm : Response.marked (e.response.buffer ++ chunk) with
    | true => rw [Response.keep_of_marked hm]; rfl
    | false => rw [Response.keep_of_unmarked hm]

theorem receive_listening {i : Interceptor σ} {e e' : Exchange σ} (hl : e.Listening)
    {chunks : List Bytes} {outs : List (List Envelope)}
    (h : e.receive i chunks = .ok (outs, e')) : e'.Listening :=
  receive_invariant (P := Listening) (fun hl hstep => listening_fromOrigin hl hstep) hl h

/-! ## Before a head is complete -/

theorem receive_crash {i : Interceptor σ} {e e' : Exchange σ} {before : List Bytes} {chunk : Bytes}
    {outs : List (List Envelope)} {crash : Crash} (hr : e.receive i before = .ok (outs, e'))
    (hc : e'.fromOrigin i chunk = .error crash) (after : List Bytes) :
    e.receive i (before ++ chunk :: after) = .error crash := by
  induction before generalizing e outs with
  | nil =>
    cases hr
    rw [List.nil_append, receive, hc]
  | cons first rest ih =>
    obtain ⟨published, e₁, later, hs, hrest, -⟩ := receive_cons_ok.mp hr
    rw [List.cons_append, receive, hs]
    simp only [ih hrest]

/-- Nothing is published of reads that end before the head does. -/
theorem receive_headless (i : Interceptor σ) {e : Exchange σ} (hl : e.Listening)
    {chunks : List Bytes} (hno : ¬ Http.headerTerminator <:+: e.response.buffer ++ chunks.flatten) :
    ∃ outs e', e.receive i chunks = .ok (outs, e') ∧ outs.flatten = [] ∧ e'.Listening ∧
      e'.response.buffer = e.response.buffer ++ chunks.flatten := by
  induction chunks generalizing e with
  | nil => exact ⟨[], e, rfl, rfl, hl, (List.append_nil _).symm⟩
  | cons chunk rest ih =>
    rw [List.flatten_cons, ← List.append_assoc] at hno ⊢
    have hno₁ : ¬ Http.headerTerminator <:+: e.response.buffer ++ chunk :=
      fun hin => hno (hin.trans List.infix_append_left)
    have hhead := Response.headOf_eq_none (Http.headerEnd_eq_none_iff.mpr hno₁)
    have hstep := fromOrigin_of_headOf i hl rfl hhead
    rw [Response.keep_of_unmarked (Response.marked_eq_false_of_headless hno₁)] at hstep
    obtain ⟨outs, e', hr, hsilent, hl', hbuf⟩ := ih (listening_fromOrigin hl hstep) hno
    exact ⟨_, e', receive_cons_ok.mpr ⟨_, _, _, hstep, hr, rfl⟩, hsilent, hl', hbuf⟩

/-- Of a response with a crowded head nothing is published, and the read with which the head is
complete brings the relay down. -/
theorem receive_crowded (i : Interceptor σ) {e : Exchange σ} (hl : e.Listening)
    (hbuf : e.response.buffer = []) {s : Bytes} {n : Nat} (hend : Http.headerEnd s = some n)
    (hc : Http.Crowded s) {chunks : List Bytes} (hall : chunks.flatten = s) :
    ∃ before chunk after outs e', chunks = before ++ chunk :: after ∧
      before.flatten.length < n ∧ n ≤ (before.flatten ++ chunk).length ∧
      e.receive i before = .ok (outs, e') ∧ outs.flatten = [] ∧
      e'.fromOrigin i chunk = .error .crowdedHead := by
  have hpos : 0 < n := Nat.lt_of_lt_of_le (by decide) (Http.le_of_headerEnd hend)
  obtain ⟨before, chunk, after, rfl, hlt, hle⟩ := exists_read hpos (hall ▸ Http.headerEnd_le hend)
  rw [← List.length_append] at hle
  have hp : before.flatten ++ chunk <+: s :=
    ⟨after.flatten, by rw [← hall, List.flatten_append, List.flatten_cons, List.append_assoc]⟩
  have hnone := Http.headerEnd_of_isPrefix ((List.prefix_append _ chunk).trans hp) hend
  rw [if_neg (Nat.not_le_of_lt hlt), Http.headerEnd_eq_none_iff] at hnone
  have hno : ¬ Http.headerTerminator <:+: e.response.buffer ++ before.flatten := by rwa [hbuf]
  obtain ⟨outs, e', hr, hsilent, hl', hbuf'⟩ := receive_headless i hl hno
  refine ⟨before, chunk, after, outs, e', rfl, hlt, hle, hr, hsilent, ?_⟩
  refine fromOrigin_crash i hl'.sound chunk (Response.headOf_eq_error_iff.mpr ⟨rfl, ?_⟩)
  rw [hbuf', hbuf, List.nil_append]
  exact hc.of_isPrefix hp hend hle

end Exchange

/-- Reads from the origin alone, through a tunnel without an idle limit. -/
theorem run_eq_receive {σ : Type} (i : Interceptor σ) (e : Exchange σ) (clock : Clock)
    (hc : clock.limit = none) (reads : List Read) (hr : ∀ r ∈ reads, r.side = .origin) :
    Tunnel.run i ⟨clock, .tapped e⟩ reads =
      (e.receive i (reads.map Read.bytes)).map fun result =>
        (⟨(reads.map Read.bytes).flatten, [], result.1.flatten⟩,
          ⟨reads.foldl (fun c r => c.touch r.moment) clock, .tapped result.2⟩) := by
  induction reads generalizing e clock with
  | nil => rfl
  | cons r rest ih =>
    obtain ⟨side, bytes, moment, time⟩ := r
    cases (hr _ List.mem_cons_self : side = .origin)
    have hstep : (⟨clock, .tapped e⟩ : Tunnel σ).step i ⟨.origin, bytes, moment, time⟩ =
        (e.fromOrigin i bytes).map fun result =>
          (⟨bytes, [], result.1⟩, ⟨clock.touch moment, .tapped result.2⟩) := by
      simp only [step, Clock.deadline, hc, Relay.pass]
      cases e.fromOrigin i bytes <;> rfl
    rw [run, hstep, List.map_cons, Exchange.receive]
    cases hs : e.fromOrigin i bytes with
    | error => rfl
    | ok result =>
      obtain ⟨published, e₁⟩ := result
      have hrest := ih e₁ (clock.touch moment) hc fun r hm => hr r (List.mem_cons_of_mem _ hm)
      simp only [Except.map, bind, Except.bind] at hrest ⊢
      rw [hrest]
      cases e₁.receive i (rest.map Read.bytes) <;> rfl

end Wiretap.Tunnel
