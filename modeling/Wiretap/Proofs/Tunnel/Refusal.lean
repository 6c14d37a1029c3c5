import Wiretap.Proofs.Tunnel.Requests

/-!
# Responses with an error status

While tapped requests are all that comes from the client, one envelope is published of a
response with an error status, at the read with which its head is complete, and nobody
is asked to read its body (`run_refusal`). All of it needs a head for whose fields a table
has room: before a head that is too crowded the relay breaks down, and neither the
envelope nor the read gets out (`not_told_crowdedRefusal`).
-/

namespace Wiretap

open Bytes (lf)

namespace Tunnel

variable {σ : Type}

/-- A response with an error status; its head has `n` bytes, and the marker may only end it. -/
structure Refusal (bytes : Bytes) (n : Nat) (status : Http.Status) : Prop where
  ends : Http.headerEnd bytes = some n
  line : Http.status? (bytes.takeWhile (· != lf)) = some status
  error : 400 ≤ status.code
  unmarked : ¬ Http.lastChunk <:+: bytes.dropLast

namespace Refusal

variable {bytes seen chunk : Bytes} {n : Nat} {status : Http.Status}

theorem eq_nil_of_marked (hr : Refusal bytes n status) (hp : seen ++ chunk <+: bytes)
    (hm : Response.marked seen = true) : chunk = [] := by
  by_contra hne
  obtain ⟨rest, rfl⟩ := hp
  refine hr.unmarked ((Response.marked_iff.mp hm).trans ?_)
  rw [List.append_assoc, List.dropLast_append_of_ne_nil (List.append_ne_nil_of_left_ne_nil hne _)]
  exact List.infix_append_left

theorem headOf_eq (hr : Refusal bytes n status) (hp : seen <+: bytes)
    {head : Option Http.ResponseHead} (hh : Response.headOf seen = .ok head) :
    if n ≤ seen.length then ∃ h, head = some h ∧ h.status = status else head = none := by
  have hend := Http.headerEnd_of_isPrefix hp hr.ends
  split
  · rename_i hle
    rw [if_pos hle] at hend
    rw [Response.headOf_eq_parse hend] at hh
    obtain ⟨rest, rfl⟩ := hp
    have htake : (seen ++ rest).take n = seen.take n := List.take_append_of_le_length hle
    rw [← htake] at hh
    cases hparse : Http.ResponseHead.parse ((seen ++ rest).take n) with
    | error => rw [hparse] at hh; cases hh
    | ok h =>
      rw [hparse] at hh
      cases hh
      refine ⟨h, rfl, ?_⟩
      rw [Http.eq_stated_of_parse hparse, Http.status_stated hr.ends, hr.line]
      rfl
  · rename_i hlt
    rw [if_neg hlt] at hend
    rw [Response.headOf_eq_none hend] at hh
    exact (Except.ok.inj hh).symm

end Refusal

namespace Exchange

/-- What has been seen of a response is kept until the marker comes. -/
structure Heard (seen : Bytes) (e : Exchange σ) : Prop extends Listening e where
  readable : ∃ head, Response.headOf seen = .ok head
  buffer : e.response.buffer = if Response.marked seen then [] else seen

theorem heard_fresh {e : Exchange σ} (ht : e.tapping = true) (hf : e.response = .fresh) :
    e.Heard [] where
  toListening := listening_of_fresh ht hf
  readable := ⟨none, rfl⟩
  buffer := by rw [hf]; rfl

section

variable {bytes seen chunk : Bytes} {n : Nat} {status : Http.Status}

/-- An error status is told with the read that completes the head, and only with that one. -/
theorem hear_refusal (i : Interceptor σ) (hr : Refusal bytes n status) {e : Exchange σ}
    (hl : e.Listening) (hbuffer : e.response.buffer = seen) (hp : seen ++ chunk <+: bytes)
    {head : Option Http.ResponseHead} (hhead : Response.headOf (seen ++ chunk) = .ok head) :
    e.hear i (seen ++ chunk) head = (if seen.length < n ∧ n ≤ (seen ++ chunk).length
      then [.ofStatus status.code status.reason] else [], e.state) := by
  have hbefore := hr.headOf_eq ((List.prefix_append _ _).trans hp) (hbuffer ▸ hl.sound.head)
  have hnow := hr.headOf_eq hp hhead
  by_cases hle : n ≤ (seen ++ chunk).length
  · rw [if_pos hle] at hnow
    obtain ⟨h, rfl, rfl⟩ := hnow
    have herr : h.isError = true := decide_eq_true hr.error
    by_cases hlt : seen.length < n
    · rw [if_neg (Nat.not_le_of_lt hlt)] at hbefore
      rw [if_pos ⟨hlt, hle⟩]
      simp [hear, herr, hbefore]
    · rw [if_pos (Nat.le_of_not_lt hlt)] at hbefore
      obtain ⟨h', hsome, -⟩ := hbefore
      rw [if_neg fun hboth => hlt hboth.1]
      simp [hear, herr, hsome]
  · rw [if_neg hle] at hnow
    rw [hnow, if_neg fun hboth => hle hboth.2]
    rfl

/-- One read of a response with an error status. -/
theorem fromOrigin_refusal (i : Interceptor σ) (hr : Refusal bytes n status) {e : Exchange σ}
    (hh : e.Heard seen) (hp : seen ++ chunk <+: bytes) {head : Option Http.ResponseHead}
    (hhead : Response.headOf (seen ++ chunk) = .ok head) :
    ∃ e', e.fromOrigin i chunk = .ok (if seen.length < n ∧ n ≤ (seen ++ chunk).length
        then [.ofStatus status.code status.reason] else [], e') ∧
      e'.Heard (seen ++ chunk) ∧ e'.state = e.state ∧ e'.markers = e.markers := by
  cases hm : Response.marked seen with
  | true =>
    -- the response is over, and no bytes are left for the read
    obtain rfl := hr.eq_nil_of_marked hp hm
    have hbuffer : e.response.buffer = [] := by rw [hh.buffer, hm]; rfl
    have hstep := fromOrigin_of_headOf i hh.toListening
      (show e.response.buffer ++ [] = [] from (List.append_nil _).trans hbuffer)
      (show Response.headOf [] = .ok none from rfl)
    have hnone : ¬ (seen.length < n ∧ n ≤ (seen ++ []).length) := by
      rw [List.append_nil]
      omega
    rw [if_neg hnone]
    refine ⟨_, hstep, ⟨listening_fromOrigin hh.toListening hstep, ?_, ?_⟩, rfl, rfl⟩
    · rw [List.append_nil]
      exact hh.readable
    · rw [List.append_nil, hm]
      rfl
  | false =>
    have hbuffer : e.response.buffer = seen := by rw [hh.buffer, hm]; rfl
    have hstep := fromOrigin_of_headOf i hh.toListening
      (show e.response.buffer ++ chunk = seen ++ chunk by rw [hbuffer]) hhead
    rw [hear_refusal i hr hh.toListening hbuffer hp hhead] at hstep
    refine ⟨_, hstep, ⟨listening_fromOrigin hh.toListening hstep, ⟨head, hhead⟩, ?_⟩, rfl, rfl⟩
    simp only [Response.keep]
    split <;> rfl

theorem fromOrigin_refusal_crash (i : Interceptor σ) (hr : Refusal bytes n status)
    {e : Exchange σ} (hh : e.Heard seen) (hp : seen ++ chunk <+: bytes) {crash : Crash}
    (hhead : Response.headOf (seen ++ chunk) = .error crash) :
    e.fromOrigin i chunk = .error crash := by
  cases hm : Response.marked seen with
  | true =>
    obtain rfl := hr.eq_nil_of_marked hp hm
    obtain ⟨head, hreadable⟩ := hh.readable
    rw [List.append_nil, hreadable] at hhead
    cases hhead
  | false =>
    have hbuffer : e.response.buffer = seen := by rw [hh.buffer, hm]; rfl
    exact fromOrigin_crash i hh.sound chunk (hbuffer ▸ hhead)

/-- A tapped request, or a read without one, leaves what has been seen. -/
theorem fromClient_heard (i : Interceptor σ) {e : Exchange (σ × List Call)} (hh : e.Heard seen)
    (now : Number.Double) {read : Bytes}
    (htaps : ∀ path, Http.pathIn read = some path → Http.hasMarker e.markers path = true) :
    (e.fromClient i.logged now read).2.Heard seen ∧
      (e.fromClient i.logged now read).2.markers = e.markers ∧
      (e.fromClient i.logged now read).2.state.2.filter Call.isResponse =
        e.state.2.filter Call.isResponse := by
  cases hpath : Http.pathIn read with
  | none =>
    rw [fromClient_of_none i.logged e now hpath]
    exact ⟨hh, rfl, rfl⟩
  | some path =>
    obtain ⟨m, -, heq⟩ := fromClient_of_tapped i.logged e now hpath (htaps path hpath)
    rw [heq]
    refine ⟨⟨⟨rfl, hh.sound, hh.reported⟩, hh.readable, hh.buffer⟩, rfl, ?_⟩
    simp [Interceptor.logged, Call.isResponse]

end

end Exchange

/-- If a request comes with the read, it is one that is to be tapped. -/
def Read.KeepsTapping (markers : List String) (r : Read) : Prop :=
  r.side = .client →
    ∀ path, Http.pathIn r.bytes = some path → Http.hasMarker markers path = true

theorem Read.Taps.keepsTapping {markers : List String} {r : Read} (h : r.Taps markers) :
    r.KeepsTapping markers := by
  obtain ⟨-, path, hpath, hm⟩ := h
  intro _ path' hpath'
  cases hpath.symm.trans hpath'
  exact hm

theorem Read.keepsTapping_ofOrigin (markers : List String) (bytes : Bytes) :
    (Read.ofOrigin bytes).KeepsTapping markers := nofun

section

variable {bytes seen : Bytes} {n : Nat} {status : Http.Status}

theorem blind_of_cons {i : Interceptor σ} {clock : Clock} {r : Read} {rest : List Read}
    (h : ∃ out t, (⟨clock, .blind⟩ : Tunnel σ).run i (r :: rest) = .ok (out, t)) :
    ∃ d, clock.deadline = .ok d ∧
      ∃ out t, (⟨clock.touch r.moment, .blind⟩ : Tunnel σ).run i rest = .ok (out, t) := by
  obtain ⟨out, t, h⟩ := h
  obtain ⟨out₁, t₁, out₂, hs, hrest, -⟩ := run_cons_ok.mp h
  cases hd : clock.deadline with
  | error crash => rw [step_of_late hd] at hs; cases hs
  | ok d =>
    rw [step_blind hd] at hs
    cases hs
    exact ⟨d, rfl, _, _, hrest⟩

/-- What happens once on the way from `a` to `c` happens on one side of `b`. -/
theorem once_append {α : Type} {a b c n : Nat} (hab : a ≤ b) (hbc : b ≤ c) (x : α) :
    ((if a < n ∧ n ≤ b then [x] else []) ++ if b < n ∧ n ≤ c then [x] else []) =
      if a < n ∧ n ≤ c then [x] else [] := by
  by_cases hb : n ≤ b
  · rw [if_neg (show ¬ (b < n ∧ n ≤ c) by omega), List.append_nil]
    exact if_congr (by omega) rfl rfl
  · rw [if_neg (show ¬ (a < n ∧ n ≤ b) by omega), List.nil_append]
    exact if_congr (by omega) rfl rfl

/-- A run over the rest of a response with an error status. -/
theorem run_heard (i : Interceptor σ) (hr : Refusal bytes n status) {clock : Clock}
    {e : Exchange (σ × List Call)} (hh : e.Heard seen) {reads : List Read}
    (hp : seen ++ bytesFrom .origin reads <+: bytes)
    (hkeeps : ∀ r ∈ reads, r.KeepsTapping e.markers)
    (hclock : ∃ out t, (⟨clock, .blind⟩ : Tunnel (σ × List Call)).run i.logged reads =
      .ok (out, t)) :
    (¬ Http.Crowded (seen ++ bytesFrom .origin reads) → ∃ out now e',
      (⟨clock, .tapped e⟩ : Tunnel (σ × List Call)).run i.logged reads =
        .ok (out, ⟨now, .tapped e'⟩) ∧
      out.toClient = bytesFrom .origin reads ∧
      out.published = (if seen.length < n ∧ n ≤ (seen ++ bytesFrom .origin reads).length
        then [.ofStatus status.code status.reason] else []) ∧
      e'.state.2.filter Call.isResponse = e.state.2.filter Call.isResponse) ∧
    (Http.Crowded (seen ++ bytesFrom .origin reads) →
      (⟨clock, .tapped e⟩ : Tunnel (σ × List Call)).run i.logged reads =
        .error .crowdedHead) := by
  induction reads generalizing clock e seen with
  | nil =>
    have hnil : bytesFrom .origin [] = [] := rfl
    rw [hnil, List.append_nil]
    refine ⟨fun _ => ⟨.none, clock, e, rfl, rfl, ?_, rfl⟩, fun hc => ?_⟩
    · rw [if_neg (by omega)]
      rfl
    · obtain ⟨head, hhead⟩ := hh.readable
      rw [Response.headOf_eq_error_iff.mpr ⟨rfl, hc⟩] at hhead
      cases hhead
  | cons r rest ih =>
    obtain ⟨d, hd, hrest⟩ := blind_of_cons hclock
    have hkeeps' : ∀ r' ∈ rest, r'.KeepsTapping e.markers :=
      fun r' hr' => hkeeps r' (List.mem_cons_of_mem r hr')
    cases hside : r.side with
    | client =>
      have hbytes : bytesFrom .origin (r :: rest) = bytesFrom .origin rest := by
        simp [bytesFrom, hside]
      obtain ⟨hh', hmarkers, hcalls⟩ :=
        Exchange.fromClient_heard i hh r.time (hkeeps r List.mem_cons_self hside)
      rw [hbytes] at hp ⊢
      obtain ⟨hok, hcrash⟩ := ih hh' hp (hmarkers ▸ hkeeps') hrest
      have hstep := step_client hd i.logged e hside
      refine ⟨fun hc => ?_, fun hc => run_cons_error.mpr (.inr ⟨_, _, hstep, hcrash hc⟩)⟩
      obtain ⟨out, now, e', hrun, htold, hpublished, hfilter⟩ := hok hc
      exact ⟨_, now, e', run_cons_ok.mpr ⟨_, _, out, hstep, hrun, rfl⟩, htold, hpublished,
        hfilter.trans hcalls⟩
    | origin =>
      have hbytes : bytesFrom .origin (r :: rest) = r.bytes ++ bytesFrom .origin rest := by
        simp [bytesFrom, hside]
      rw [hbytes, ← List.append_assoc] at hp ⊢
      have hp₁ := (List.prefix_append _ _).trans hp
      have hstep := step_origin hd i.logged e hside
      cases hhead : Response.headOf (seen ++ r.bytes) with
      | error crash =>
        obtain ⟨rfl, hc⟩ := Response.headOf_eq_error_iff.mp hhead
        rw [Exchange.fromOrigin_refusal_crash i.logged hr hh hp₁ hhead] at hstep
        exact ⟨fun hn => absurd (hc.append _) hn, fun _ => run_cons_error.mpr (.inl hstep)⟩
      | ok head =>
        obtain ⟨e₁, ho, hh', hstate, hmarkers⟩ :=
          Exchange.fromOrigin_refusal i.logged hr hh hp₁ hhead
        rw [ho] at hstep
        obtain ⟨hok, hcrash⟩ := ih hh' hp (hmarkers ▸ hkeeps') hrest
        refine ⟨fun hc => ?_, fun hc => run_cons_error.mpr (.inr ⟨_, _, hstep, hcrash hc⟩)⟩
        obtain ⟨out, now, e', hrun, htold, hpublished, hfilter⟩ := hok hc
        refine ⟨_, now, e', run_cons_ok.mpr ⟨_, _, out, hstep, hrun, rfl⟩, ?_, ?_, hstate ▸ hfilter⟩
        · rw [Output.toClient_append, htold]
        · rw [Output.published_append, hpublished]
          exact once_append (List.prefix_append _ _).length_le (List.prefix_append _ _).length_le _

/-- Of a response with an error status, in whatever pieces and among whatever reads of the client
that ask for no other one, the client gets all that has come, nobody is asked to read a body, and
from the read with which the head is complete one envelope is published: unless this is a head for
whose fields a table has no room, before which the relay breaks down. -/
theorem run_refusal (i : Interceptor σ) (hr : Refusal bytes n status) {clock : Clock}
    {e : Exchange (σ × List Call)} (ht : e.tapping = true) (hf : e.response = .fresh)
    {reads : List Read} (hp : bytesFrom .origin reads <+: bytes)
    (hkeeps : ∀ r ∈ reads, r.KeepsTapping e.markers)
    (hclock : ∃ out t, (⟨clock, .blind⟩ : Tunnel (σ × List Call)).run i.logged reads =
      .ok (out, t)) :
    (¬ Http.Crowded (bytesFrom .origin reads) → ∃ out now e',
      (⟨clock, .tapped e⟩ : Tunnel (σ × List Call)).run i.logged reads =
        .ok (out, ⟨now, .tapped e'⟩) ∧
      out.toClient = bytesFrom .origin reads ∧
      out.published = (if n ≤ (bytesFrom .origin reads).length
        then [.ofStatus status.code status.reason] else []) ∧
      e'.state.2.filter Call.isResponse = e.state.2.filter Call.isResponse) ∧
    (Http.Crowded (bytesFrom .origin reads) →
      (⟨clock, .tapped e⟩ : Tunnel (σ × List Call)).run i.logged reads =
        .error .crowdedHead) := by
  have hpos : 0 < n := Nat.lt_of_lt_of_le (by decide) (Http.le_of_headerEnd hr.ends)
  have hrun := run_heard i hr (Exchange.heard_fresh ht hf) (show [] ++ _ <+: bytes from hp)
    hkeeps hclock
  simpa only [List.nil_append, List.length_nil, hpos, true_and] using hrun

end

/-- A connection of which the last request was a tapped one, with a list of its calls. -/
def tappedAsk : Exchange (Tap.Stream × List Call) :=
  { Exchange.fresh (Tap.Stream.interceptor false false).logged "localhost" ["/ask"] with
    tapping := true }

def notFound : Bytes :=
  Utf8.encode "HTTP/1.1 404 Not Found\r\nContent-Length: 2\r\n\r\nno"

/-- Cut in the middle of its status line and of its terminator, around one more request. -/
def notFoundReads : List Read :=
  [.ofOrigin (notFound.take 11), ask, .ofOrigin ((notFound.drop 11).take 32),
    .ofOrigin (notFound.drop 43)]

theorem run_refusal_notFound :
    let i := Tap.Stream.interceptor false false
    Refusal notFound 45 ⟨404, "Not Found"⟩ ∧ tappedAsk.tapping = true ∧
    tappedAsk.response = .fresh ∧ bytesFrom .origin notFoundReads <+: notFound ∧
    (∀ r ∈ notFoundReads, r.KeepsTapping tappedAsk.markers) ∧
    (∃ out t, (⟨⟨some 600, 0⟩, .blind⟩ : Tunnel (Tap.Stream × List Call)).run i.logged
      notFoundReads = .ok (out, t)) ∧
    ¬ Http.Crowded (bytesFrom .origin notFoundReads) ∧
    ∃ out now e', (⟨⟨some 600, 0⟩, .tapped tappedAsk⟩ : Tunnel (Tap.Stream × List Call)).run
        i.logged notFoundReads = .ok (out, ⟨now, .tapped e'⟩) ∧
      out.toClient = bytesFrom .origin notFoundReads ∧
      out.published = (if 45 ≤ (bytesFrom .origin notFoundReads).length
        then [.ofStatus 404 "Not Found"] else []) ∧
      e'.state.2.filter Call.isResponse = tappedAsk.state.2.filter Call.isResponse := by
  intro i
  have hr : Refusal notFound 45 ⟨404, "Not Found"⟩ := {
    ends := by decide +kernel
    line := by decide +kernel
    error := by decide
    unmarked := by decide +kernel }
  have hp : bytesFrom .origin notFoundReads <+: notFound := by decide +kernel
  have hkeeps : ∀ r ∈ notFoundReads, r.KeepsTapping tappedAsk.markers := by
    simp only [notFoundReads, List.forall_mem_cons]
    exact ⟨Read.keepsTapping_ofOrigin _ _, taps_ask.keepsTapping, Read.keepsTapping_ofOrigin _ _,
      Read.keepsTapping_ofOrigin _ _, List.forall_mem_nil _⟩
  have hclock : ∃ out t, (⟨⟨some 600, 0⟩, .blind⟩ : Tunnel (Tap.Stream × List Call)).run i.logged
      notFoundReads = .ok (out, t) := ⟨_, _, rfl⟩
  have hfit : ¬ Http.Crowded (bytesFrom .origin notFoundReads) := by decide +kernel
  exact ⟨hr, rfl, rfl, hp, hkeeps, hclock, hfit,
    (run_refusal i hr rfl rfl hp hkeeps hclock).1 hfit⟩

/-! ## A crowded head -/

/-- A head with an error status, and nothing behind it. -/
theorem refusal_lines {lines : List Bytes} (h : ∀ l ∈ lines, Http.IsLine l) {line : Bytes}
    (hfirst : lines.head? = some line) {status : Http.Status}
    (hs : Http.status? line = some status) (herr : 400 ≤ status.code) :
    Refusal (lines.flatMap (· ++ Bytes.crlf) ++ Bytes.crlf)
      (lines.flatMap (· ++ Bytes.crlf) ++ Bytes.crlf).length status where
  ends := by
    have hend := Http.headerEnd_lines h (List.ne_nil_of_mem (List.mem_of_head? hfirst)) []
    rwa [List.append_nil] at hend
  line := by
    obtain ⟨rest, rfl⟩ := List.head?_eq_some_iff.mp hfirst
    have hline := h line List.mem_cons_self
    rw [Http.takeWhile_lines hline, Http.status?_concat_cr hline, hs]
  error := herr
  unmarked := by
    -- only the empty line could complete it
    rw [show Bytes.crlf = [Bytes.cr] ++ [Bytes.lf] from rfl, ← List.append_assoc,
      List.dropLast_concat, show [Bytes.cr] ++ [Bytes.lf] = Bytes.crlf from rfl,
      Http.marker_infix_lines h]
    exact not_or.mpr ⟨fun hp => absurd hp.2 (by decide), by decide⟩

/-- A head with an error status and of one field more than there is room for. -/
def crowdedRefusal : List Bytes :=
  Utf8.encode "HTTP/1.1 404 Not Found" ::
    (Http.shortNames (Http.Headers.capacity + 1)).map Http.bareField

theorem isLine_crowdedRefusal : ∀ l ∈ crowdedRefusal, Http.IsLine l :=
  Http.isLine_bareFields (by decide +kernel) Http.fieldName?_of_mem_shortNames

theorem crowded_crowdedRefusal :
    Http.Crowded (crowdedRefusal.flatMap (· ++ Bytes.crlf) ++ Bytes.crlf) :=
  crowded_shortNames (isLine_crowdedRefusal _ List.mem_cons_self)

/-- Nothing of such a response is published, nor does its end get to the client. -/
theorem not_told_crowdedRefusal :
    let i := Tap.Stream.interceptor false false
    let reads := headReads crowdedRefusal
    (∃ n, Refusal (bytesFrom .origin reads) n ⟨404, "Not Found"⟩) ∧
    tappedAsk.tapping = true ∧ tappedAsk.response = .fresh ∧
    (∀ r ∈ reads, r.KeepsTapping tappedAsk.markers) ∧
    (∃ out t, (⟨⟨some 600, 0⟩, .blind⟩ : Tunnel (Tap.Stream × List Call)).run i.logged reads =
      .ok (out, t)) ∧
    (⟨⟨some 600, 0⟩, .tapped tappedAsk⟩ : Tunnel (Tap.Stream × List Call)).run i.logged reads =
      .error .crowdedHead := by
  intro i reads
  have hstatus : Http.status? (Utf8.encode "HTTP/1.1 404 Not Found") = some ⟨404, "Not Found"⟩ := by
    decide +kernel
  have hr := refusal_lines isLine_crowdedRefusal (show crowdedRefusal.head? = some _ from rfl)
    hstatus (by decide)
  have hc := crowded_crowdedRefusal
  have hbytes := bytesFrom_headReads crowdedRefusal
  have hkeeps : ∀ r ∈ reads, r.KeepsTapping tappedAsk.markers := by
    intro r hmem
    obtain ⟨bytes, -, rfl⟩ := List.mem_map.mp hmem
    exact Read.keepsTapping_ofOrigin _ _
  have hclock := run_blind_headReads i.logged crowdedRefusal (show 600 ≤ lastMoment by decide)
  rw [← hbytes] at hr hc
  have hp : [] ++ bytesFrom .origin reads <+: bytesFrom .origin reads := by
    rw [List.nil_append]
  have hrun := run_heard i hr (Exchange.heard_fresh rfl rfl) hp hkeeps hclock
  rw [List.nil_append] at hrun
  exact ⟨⟨_, hr⟩, rfl, rfl, hkeeps, hclock, hrun.2 hc⟩

end Tunnel

end Wiretap
