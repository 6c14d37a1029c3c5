import Wiretap.Proofs.Http.Room
import Wiretap.Proofs.Tunnel.Fidelity

/-!
# What brings a relay down

A step breaks down because the clock cannot tell when the wait for a read ends, or because with the
read a response head is complete for whose fields a table has no room (`step_eq_error_iff`,
`pass_eq_error_iff`). So a run does it where the last traffic was too late for the limit of the
clock (`run_overflow_iff`), or where a field comes behind as many different names as there is room
for (`run_crowded_iff`).
-/

namespace Wiretap.Tunnel

variable {σ : Type} {i : Interceptor σ} {crash : Crash}

/-! ## Reads and runs -/

theorem Response.append_eq_error {response : Response} {chunk : Bytes}
    (h : response.append chunk = .error crash) : crash = .crowdedHead := by
  unfold append findHead at h
  split at h
  · cases hp : Http.ResponseHead.parse _ with
    | error crash' =>
      rw [hp] at h
      cases h
      exact (Http.parse_eq_error_iff.mp hp).1
    | ok head => rw [hp] at h; cases h
  · cases h

theorem Response.append_eq_error_iff {response : Response} (hs : response.Sound) {chunk : Bytes} :
    response.append chunk = .error crash ↔
      crash = .crowdedHead ∧ Http.Crowded (response.buffer ++ chunk) := by
  rw [append_eq hs, ← headOf_eq_error_iff]
  cases headOf (response.buffer ++ chunk) <;> simp [Except.map]

theorem Exchange.fromOrigin_eq_error_iff {e : Exchange σ} {chunk : Bytes} :
    e.fromOrigin i chunk = .error crash ↔ e.response.append chunk = .error crash := by
  unfold fromOrigin
  cases e.response.append chunk with
  | error => simp
  | ok => exact ⟨nofun, nofun⟩

/-- A read that brings a relay down is one from the origin of a tapped connection. -/
theorem pass_eq_error_iff {relay : Relay σ} {r : Read} :
    relay.pass i r = .error crash ↔ ∃ e, relay = .tapped e ∧ r.side = .origin ∧
      e.response.append r.bytes = .error crash := by
  obtain ⟨side, bytes, moment, time⟩ := r
  cases relay with
  | blind => cases side <;> simp [Relay.pass]
  | tapped e =>
    cases side with
    | client => simp [Relay.pass]
    | origin =>
      simp only [Relay.pass, Relay.tapped.injEq, exists_eq_left', true_and,
        ← Exchange.fromOrigin_eq_error_iff (i := i)]
      cases e.fromOrigin i bytes <;> simp [bind, Except.bind, pure, Except.pure]

theorem step_eq_error_iff {t : Tunnel σ} {r : Read} : t.step i r = .error crash ↔
    t.clock.deadline = .error crash ∨
      (∃ d, t.clock.deadline = .ok d) ∧ t.relay.pass i r = .error crash := by
  unfold step
  cases t.clock.deadline with
  | error crash' => simp [bind, Except.bind]
  | ok d => cases t.relay.pass i r <;> simp [bind, Except.bind, pure, Except.pure]

/-! ## The clock -/

/-- The moment of the last traffic in a tunnel that was opened at `start`. -/
def lastTraffic (start : Moment) (reads : List Read) : Moment :=
  (reads.getLast?.map Read.moment).getD start

theorem step_clock {t t' : Tunnel σ} {r : Read} {out : Output} (h : t.step i r = .ok (out, t')) :
    t'.clock = t.clock.touch r.moment := by
  unfold step at h
  cases hd : t.clock.deadline with
  | error crash => rw [hd] at h; cases h
  | ok d =>
    cases hp : t.relay.pass i r with
    | error crash => rw [hd, hp] at h; cases h
    | ok passed => rw [hd, hp] at h; cases h; rfl

/-- A run leaves the limit of the clock and sets its moment. -/
theorem run_clock {t t' : Tunnel σ} {reads : List Read} {out : Output}
    (h : t.run i reads = .ok (out, t')) :
    t'.clock = ⟨t.clock.limit, lastTraffic t.clock.last reads⟩ := by
  induction reads using List.reverseRecOn generalizing t' out with
  | nil => cases h; rfl
  | append_singleton reads r ih =>
    obtain ⟨out₁, t₁, out₂, hreads, hstep, -⟩ := run_append_ok.mp h
    rw [step_clock (run_singleton_ok.mp hstep), ih hreads]
    simp [Clock.touch, lastTraffic]

/-- A run breaks down for want of time if and only if, after reads that it could make and before
another one, the end of the wait is no moment that the clock can tell. -/
theorem run_overflow_iff {t : Tunnel σ} {reads : List Read} :
    t.run i reads = .error .clockOverflow ↔
      ∃ before r after out t', reads = before ++ r :: after ∧ t.run i before = .ok (out, t') ∧
        ∃ limit ∈ t.clock.limit, lastMoment < lastTraffic t.clock.last before + limit := by
  have hstep {t : Tunnel σ} {r : Read} : t.step i r = .error .clockOverflow ↔
      ∃ limit ∈ t.clock.limit, lastMoment < t.clock.last + limit := by
    rw [step_eq_error_iff, Clock.deadline_eq_error_iff]
    simp only [true_and, or_iff_left_iff_imp]
    rintro ⟨-, hpass⟩
    obtain ⟨e, -, -, happend⟩ := pass_eq_error_iff.mp hpass
    cases Response.append_eq_error happend
  rw [run_eq_error_iff]
  constructor
  · rintro ⟨before, r, after, out, t', hreads, hbefore, hlate⟩
    rw [hstep, run_clock hbefore] at hlate
    exact ⟨before, r, after, out, t', hreads, hbefore, hlate⟩
  · rintro ⟨before, r, after, out, t', hreads, hbefore, hlate⟩
    refine ⟨before, r, after, out, t', hreads, hbefore, hstep.mpr ?_⟩
    rwa [run_clock hbefore]

/-! ## Crowded heads -/

theorem crowded_iff_overfills {seen : Bytes} : Http.Crowded seen ↔
    ∃ n, Http.headerEnd seen = some n ∧ Http.Headers.Overfills (Http.headFields (seen.take n)) := by
  unfold Http.Crowded
  simp only [Http.Headers.fits_eq_false_iff]

theorem length_of_crowded {seen : Bytes} (h : Http.Crowded seen) :
    3 * Http.Headers.capacity < seen.length := by
  obtain ⟨n, -, hover⟩ := crowded_iff_overfills.mp h
  exact (Http.length_of_overfills hover).trans_le (List.length_take_le' n seen)

theorem kept_suffix (reads : List Read) : kept [] reads <:+ bytesFrom .origin reads := by
  induction reads using List.reverseRecOn with
  | nil => exact List.suffix_rfl
  | append_singleton reads r ih =>
    rw [bytesFrom_append]
    cases hr : r.side with
    | client =>
      rwa [kept_concat_client hr, bytesFrom_singleton_ne (by simp [hr]), List.append_nil]
    | origin =>
      rw [kept_concat_origin hr, bytesFrom_singleton hr]
      split
      · exact List.nil_suffix
      · obtain ⟨front, hfront⟩ := ih
        exact ⟨front, by rw [← hfront, List.append_assoc]⟩

variable {host : String} {markers : List String} {clock now : Clock} {reads : List Read}
  {out : Output} {e : Exchange σ}

theorem Abreast.step_crowded_iff (h : Abreast i host markers clock reads out now e) {r : Read} :
    (⟨now, .tapped e⟩ : Tunnel σ).step i r = .error .crowdedHead ↔
      (∃ d, now.deadline = .ok d) ∧ r.side = .origin ∧ Http.Crowded (kept [] reads ++ r.bytes) := by
  have hclock : now.deadline ≠ .error .crowdedHead := fun hd => nomatch deadline_eq_error hd
  simp only [step_eq_error_iff, pass_eq_error_iff, hclock, false_or, Relay.tapped.injEq,
    exists_eq_left', Response.append_eq_error_iff h.sound, h.buffer, true_and]

/-- A tapped run that goes on is abreast of a blind one. -/
theorem abreast_of_run {t : Tunnel σ}
    (h : (tappedTunnel i host markers clock).run i reads = .ok (out, t)) :
    ∃ now e, t = ⟨now, .tapped e⟩ ∧ Abreast i host markers clock reads out now e := by
  rcases run_tapped_cases i host markers clock reads with
    ⟨out', now, e, ha⟩ | ⟨crash, ht, -⟩ | ⟨ht, -⟩
  · cases ha.tapped.symm.trans h
    exact ⟨now, e, rfl, ha⟩
  · cases ht.symm.trans h
  · cases ht.symm.trans h

/-- Reading a head adds its fields to a table one after another. A tapped relay is brought down by
this if and only if one of them comes when the table is full: then all reads before the one that
completes the head have been sent on, and that one is not. It takes more than three bytes for every
name there is room for. -/
theorem run_crowded_iff (i : Interceptor σ) (host : String) (markers : List String) (clock : Clock)
    (reads : List Read) :
    (∀ head, Http.ResponseHead.parse head =
      ((Http.headFields head).foldlM Http.Headers.add ⟨[]⟩).map fun table =>
        ⟨head.length, ((Bytes.splitOn Bytes.lf head).head?.bind Http.status?).getD .ok, table⟩) ∧
    ((tappedTunnel i host markers clock).run i reads = .error .crowdedHead ↔
      ∃ before r after out t n, reads = before ++ r :: after ∧ r.side = .origin ∧
        (tappedTunnel i host markers clock).run i before = .ok (out, t) ∧
        out.toClient = bytesFrom .origin before ∧ (∃ d, t.clock.deadline = .ok d) ∧
        Http.headerEnd (kept [] before ++ r.bytes) = some n ∧
        Http.Headers.Overfills (Http.headFields ((kept [] before ++ r.bytes).take n))) ∧
    ((bytesFrom .origin reads).length ≤ 3 * Http.Headers.capacity →
      (tappedTunnel i host markers clock).run i reads ≠ .error .crowdedHead) := by
  have hiff : (tappedTunnel i host markers clock).run i reads = .error .crowdedHead ↔
      ∃ before r after out t, reads = before ++ r :: after ∧ r.side = .origin ∧
        (tappedTunnel i host markers clock).run i before = .ok (out, t) ∧
        out.toClient = bytesFrom .origin before ∧ (∃ d, t.clock.deadline = .ok d) ∧
        Http.Crowded (kept [] before ++ r.bytes) := by
    rw [run_eq_error_iff]
    constructor
    · rintro ⟨before, r, after, out, t, rfl, hrun, hstep⟩
      obtain ⟨now, e, rfl, ha⟩ := abreast_of_run hrun
      obtain ⟨hd, hr, hc⟩ := ha.step_crowded_iff.mp hstep
      exact ⟨before, r, after, out, _, rfl, hr, hrun, ha.toClient, hd, hc⟩
    · rintro ⟨before, r, after, out, t, rfl, hr, hrun, -, hd, hc⟩
      obtain ⟨now, e, rfl, ha⟩ := abreast_of_run hrun
      exact ⟨before, r, after, out, _, rfl, hrun, ha.step_crowded_iff.mpr ⟨hd, hr, hc⟩⟩
  refine ⟨Http.parse_eq_foldlM, hiff.trans ?_, fun hlen hrun => ?_⟩
  · simp only [crowded_iff_overfills, exists_and_left]
  · obtain ⟨before, r, after, -, -, rfl, hr, -, -, -, hc⟩ := hiff.mp hrun
    have hlong := length_of_crowded hc
    have hkept := (kept_suffix before).length_le
    rw [bytesFrom_append, ← List.singleton_append, bytesFrom_append, bytesFrom_singleton hr,
      List.length_append, List.length_append] at hlen
    rw [List.length_append] at hlong
    omega

/-- A head of more different names than there is room for is not read, and brings the relay down. -/
theorem not_parsed_crowdedLines :
    let stock := Tap.Stream.interceptor false false
    let head := crowdedLines.flatMap (· ++ Bytes.crlf) ++ Bytes.crlf
    Http.headerEnd head = some head.length ∧ bytesFrom .origin (headReads crowdedLines) = head ∧
    Http.Headers.Overfills (Http.headFields head) ∧
    Http.ResponseHead.parse head = .error .crowdedHead ∧
    (tappedTunnel stock "localhost" [] ⟨some 600, 0⟩).run stock (headReads crowdedLines) =
      .error .crowdedHead := by
  intro stock head
  have hend : Http.headerEnd head = some head.length := by
    have h := Http.headerEnd_lines isLine_crowdedLines (List.cons_ne_nil _ _) []
    rwa [List.append_nil] at h
  have hfull : Http.Headers.Overfills (Http.headFields head) := by
    obtain ⟨n, hn, hover⟩ := crowded_iff_overfills.mp crowded_crowdedLines
    cases hend.symm.trans hn
    rwa [List.take_length] at hover
  refine ⟨hend, bytesFrom_headReads crowdedLines, hfull, ?_, ?_⟩
  · exact Http.parse_eq_error_iff.mpr ⟨rfl, Http.Headers.fits_eq_false_iff.mpr hfull⟩
  · exact run_tapped_of_crowded
      (crowdedRun_headReads stock isLine_crowdedLines crowded_crowdedLines (by decide))

end Wiretap.Tunnel
