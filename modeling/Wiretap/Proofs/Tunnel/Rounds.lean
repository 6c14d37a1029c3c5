import Wiretap.Proofs.Tunnel.Asking

/-!
# When an interceptor is called

An interceptor that keeps a list of its calls does what it does without one, in the same
run. Its calls come in rounds: a reset, the request, and what is shown of the response, one
round for each tapped request, in order. Something is published of a read only if the last
request before it was a tapped one, and data bear the time of that request (`run_rounds`).
-/

namespace Wiretap

/-- One tapped request, and what an interceptor is shown behind it. -/
structure Round where
  body : Bytes
  path : String
  shown : List (Bytes × Http.Headers)

namespace Round

/-- The calls of a round: a response is shown without a path. -/
def calls (host : String) (r : Round) : List Call :=
  .reset :: .request r.body host r.path ::
    r.shown.map fun (body, headers) => .response body host "" headers

/-- One more look at the response. -/
def look (r : Round) (body : Bytes) (headers : Http.Headers) : Round :=
  { r with shown := r.shown ++ [(body, headers)] }

theorem calls_look (host : String) (r : Round) (body : Bytes) (headers : Http.Headers) :
    (r.look body headers).calls host = r.calls host ++ [.response body host "" headers] := by
  simp [calls, look]

end Round

namespace Tunnel

variable {σ : Type} {host : String} {markers : List String}

/-- The round that a tapped request opens. -/
structure Opens (markers : List String) (r : Read) (round : Round) : Prop where
  asks : r.Asks round.path
  marked : Http.Marked markers round.path
  body : ∃ n, Http.headerEnd r.bytes = some n ∧ round.body = r.bytes.drop n

theorem Opens.look {r : Read} {round : Round} (h : Opens markers r round) (body : Bytes)
    (headers : Http.Headers) : Opens markers r (round.look body headers) :=
  ⟨h.asks, h.marked, h.body⟩

namespace Exchange

/-- The same connection with an interceptor that has kept a list of its calls. -/
def logging (e : Exchange σ) (log : List Call) : Exchange (σ × List Call) :=
  ⟨e.host, e.markers, e.tapping, e.requested, (e.state, log), e.response⟩

/-! ## One read -/

theorem observe_logged (i : Interceptor σ) (e : Exchange σ) (log : List Call) :
    ∃ calls, (e.logging log).observe i.logged =
        ((e.observe i).1, (e.observe i).2.logging (log ++ calls)) ∧
      (calls = [] ∨ ∃ body headers, calls = [.response body e.host "" headers]) := by
  cases hh : e.response.head with
  | none => exact ⟨[], by simp [observe, logging, hh], .inl rfl⟩
  | some head =>
    by_cases herr : 400 ≤ head.status.code
    · cases hr : e.response.reported <;>
        exact ⟨[], by simp [observe, logging, hh, herr, hr], .inl rfl⟩
    · refine ⟨_, ?_, .inr ⟨e.response.buffer.drop head.bodyStart, head.headers, rfl⟩⟩
      cases ha : i.response e.state (e.response.buffer.drop head.bodyStart) e.host ""
          head.headers with
      | mk result state =>
        cases result <;> simp [observe, logging, hh, herr, Interceptor.logged, ha]

/-- What is published of a read bears the time of the last tapped request. -/
theorem ts_of_observe {i : Interceptor σ} {e : Exchange σ} {ts : Number.Double} {report : Report}
    (h : .data ts report ∈ (e.observe i).1) : ts = e.requested := by
  unfold observe at h
  split at h
  · cases h
  · split at h
    · split at h
      · cases h
      · rw [List.mem_singleton] at h
        cases h
    · simp only at h
      split at h
      · rw [List.mem_singleton] at h
        cases h
        rfl
      · cases h

/-- A read from the origin is published of only while the last request was a tapped one. -/
theorem published_of_fromOrigin {i : Interceptor σ} {e e' : Exchange σ} {chunk : Bytes}
    {published : List Envelope} (h : e.fromOrigin i chunk = .ok (published, e')) :
    (published ≠ [] → e.tapping = true) ∧
      ∀ ts report, .data ts report ∈ published → ts = e.requested := by
  unfold fromOrigin at h
  cases ha : e.response.append chunk with
  | error => rw [ha] at h; cases h
  | ok response =>
    simp only [ha, Except.ok.injEq, Prod.mk.injEq] at h
    rw [← h.1]
    by_cases ht : e.tapping = true
    · rw [if_pos ht]
      exact ⟨fun _ => ht, fun _ _ hmem => ts_of_observe (e := { e with response }) hmem⟩
    · rw [if_neg ht]
      exact ⟨fun hne => absurd rfl hne, nofun⟩

/-- A read from the origin shows the interceptor the response at most once, and only while the
last request was a tapped one. -/
theorem fromOrigin_logged {i : Interceptor σ} {e e' : Exchange σ} {chunk : Bytes}
    {published : List Envelope} (h : e.fromOrigin i chunk = .ok (published, e'))
    (log : List Call) :
    ∃ calls, (e.logging log).fromOrigin i.logged chunk =
        .ok (published, e'.logging (log ++ calls)) ∧
      (calls = [] ∨
        e.tapping = true ∧ ∃ body headers, calls = [.response body e.host "" headers]) := by
  unfold fromOrigin at h ⊢
  cases ha : e.response.append chunk with
  | error => rw [ha] at h; cases h
  | ok response =>
    have ha' : (e.logging log).response.append chunk = .ok response := ha
    simp only [ha, Except.ok.injEq, Prod.mk.injEq] at h
    simp only [ha']
    obtain ⟨calls, hobs, hcalls⟩ := observe_logged i { e with response } log
    cases ht : e.tapping with
    | false =>
      have ht' : ¬ (e.logging log).tapping = true := Bool.eq_false_iff.mp ht
      rw [if_neg (Bool.eq_false_iff.mp ht)] at h
      rw [← h.1, ← h.2, if_neg ht']
      refine ⟨[], ?_, .inl rfl⟩
      rw [apply_ite (logging · (log ++ [])), List.append_nil]
      rfl
    | true =>
      have ht' : (e.logging log).tapping = true := ht
      rw [if_pos ht] at h
      rw [← h.1, ← h.2, if_pos ht']
      refine ⟨calls, ?_, hcalls.imp_right fun hc => ⟨rfl, hc⟩⟩
      rw [show ({ e.logging log with response } : Exchange (σ × List Call)) =
        ({ e with response } : Exchange σ).logging log from rfl, hobs,
        apply_ite (logging · (log ++ calls))]
      rfl

end Exchange

/-! ## Runs -/

/-- How a connection stands after reads that have opened these rounds. -/
structure Stands (host : String) (markers : List String) (reads : List Read)
    (rounds : List Round) (e : Exchange σ) : Prop where
  sameHost : e.host = host
  sameMarkers : e.markers = markers
  opened : List.Forall₂ (Opens markers) (reads.filter (·.Taps markers)) rounds
  last : e.tapping = true → ∃ asking path, LastRequest reads asking path ∧
    Http.Marked markers path ∧ e.requested = asking.time

theorem stands_fresh (i : Interceptor σ) : Stands host markers [] [] (.fresh i host markers) :=
  ⟨rfl, rfl, .nil, nofun⟩

/-- The calls of the rounds so far, all of them. -/
def callsOf (host : String) (rounds : List Round) : List Call := rounds.flatMap (Round.calls host)

namespace Stands

variable {reads : List Read} {rounds : List Round} {e : Exchange σ} {r : Read}

theorem filter_concat_neg (h : ¬ r.Taps markers) :
    (reads ++ [r]).filter (·.Taps markers) = reads.filter (·.Taps markers) := by
  rw [List.filter_append, List.filter_cons_of_neg (by simpa using h), List.filter_nil,
    List.append_nil]

theorem filter_concat_pos (h : r.Taps markers) :
    (reads ++ [r]).filter (·.Taps markers) = reads.filter (·.Taps markers) ++ [r] := by
  rw [List.filter_append, List.filter_cons_of_pos (by simpa using h), List.filter_nil]

/-- A read that holds no request opens no round, whatever the interceptor makes of its state. -/
theorem skip (h : Stands host markers reads rounds e) (hr : ∀ path, ¬ r.Asks path)
    {rounds' : List Round}
    (hopened : List.Forall₂ (Opens markers) (reads.filter (·.Taps markers)) rounds') (state : σ)
    (response : Response) :
    Stands host markers (reads ++ [r]) rounds' { e with state, response } := by
  refine ⟨h.sameHost, h.sameMarkers, ?_, fun ht => ?_⟩
  · rw [filter_concat_neg (not_taps_of_not_asks hr)]
    exact hopened
  · obtain ⟨asking, path, hlast, hm, htime⟩ := h.last ht
    exact ⟨asking, path, hlast.concat hr, hm, htime⟩

/-- A read from the client opens a round if it is to be tapped, and the calls are those of the
rounds. -/
theorem client (i : Interceptor σ) (h : Stands host markers reads rounds e)
    (hr : r.side = .client) :
    ∃ rounds', Stands host markers (reads ++ [r]) rounds' (e.fromClient i r.time r.bytes).2 ∧
      (e.logging (callsOf host rounds)).fromClient i.logged r.time r.bytes =
        ((e.fromClient i r.time r.bytes).1,
          (e.fromClient i r.time r.bytes).2.logging (callsOf host rounds')) := by
  cases hpath : Http.pathIn r.bytes with
  | none =>
    rw [Exchange.fromClient_of_none i e r.time hpath,
      Exchange.fromClient_of_none i.logged _ r.time hpath]
    have hasks : ∀ path, ¬ r.Asks path := fun path ho =>
      Http.pathIn_eq_none_iff.mp hpath path ho.2
    exact ⟨rounds, h.skip hasks h.opened e.state e.response, rfl⟩
  | some path =>
    have hask : r.Asks path := ⟨hr, Http.pathIn_eq_some_iff.mp hpath⟩
    cases hm : Http.hasMarker e.markers path with
    | false =>
      rw [Exchange.fromClient_of_other i e r.time hpath hm,
        Exchange.fromClient_of_other i.logged (e.logging _) r.time hpath hm]
      have htaps : ¬ r.Taps markers := by
        rintro ⟨-, other, hother, hmarker⟩
        cases hpath.symm.trans hother
        rw [h.sameMarkers, hmarker] at hm
        cases hm
      refine ⟨rounds, ⟨h.sameHost, h.sameMarkers, ?_, nofun⟩, rfl⟩
      rw [filter_concat_neg htaps]
      exact h.opened
    | true =>
      have hmarked : Http.Marked markers path := Http.hasMarker_iff.mp (h.sameMarkers ▸ hm)
      obtain ⟨n, hn, heq⟩ := Exchange.fromClient_of_tapped i e r.time hpath hm
      obtain ⟨n', hn', heq'⟩ := Exchange.fromClient_of_tapped i.logged
        (e.logging (callsOf host rounds)) r.time hpath hm
      cases hn.symm.trans hn'
      rw [heq, heq']
      refine ⟨rounds ++ [⟨r.bytes.drop n, path, []⟩],
        ⟨h.sameHost, h.sameMarkers, ?_, fun _ => ?_⟩, ?_⟩
      · rw [filter_concat_pos (taps_iff.mpr ⟨path, hask, hmarked⟩)]
        exact List.rel_append h.opened (.cons ⟨hask, hmarked, n, hn, rfl⟩ .nil)
      · exact ⟨r, path, hask.lastRequest reads, hmarked, rfl⟩
      · simp [callsOf, Round.calls, Exchange.logging, Interceptor.logged, h.sameHost]

/-- While the last request was a tapped one, there is a round for it. -/
theorem rounds_ne_nil (h : Stands host markers reads rounds e) (ht : e.tapping = true) :
    rounds ≠ [] := by
  obtain ⟨asking, path, ⟨earlier, later, rfl, hask, -⟩, hmarked, -⟩ := h.last ht
  rintro rfl
  have hnone := List.forall₂_nil_right_iff.mp h.opened
  refine List.filter_eq_nil_iff.mp hnone asking (by simp) ?_
  simpa using taps_iff.mpr ⟨path, hask, hmarked⟩

theorem opened_look {asked : List Read} {last : Round} {body : Bytes} {headers : Http.Headers}
    (h : List.Forall₂ (Opens markers) asked (rounds ++ [last])) :
    List.Forall₂ (Opens markers) asked (rounds ++ [last.look body headers]) := by
  have hlast := List.forall₂_drop_append _ _ _ h
  obtain ⟨r, rest, hr, hrest, heq⟩ := List.forall₂_cons_right_iff.mp hlast
  rw [← List.take_append_drop rounds.length asked, heq]
  exact List.rel_append (List.forall₂_take_append _ _ _ h) (.cons (hr.look body headers) hrest)

/-- A read from the origin opens no round; what is shown of it belongs to the last one. -/
theorem origin {i : Interceptor σ} (h : Stands host markers reads rounds e)
    (hr : r.side = .origin) {published : List Envelope} {e' : Exchange σ}
    (hstep : e.fromOrigin i r.bytes = .ok (published, e')) :
    ∃ rounds', Stands host markers (reads ++ [r]) rounds' e' ∧
      (e.logging (callsOf host rounds)).fromOrigin i.logged r.bytes =
        .ok (published, e'.logging (callsOf host rounds')) := by
  have hasks : ∀ path, ¬ r.Asks path := fun _ ho => by cases hr.symm.trans ho.1
  obtain ⟨state, response, rfl, -⟩ := Exchange.fromOrigin_frame hstep
  obtain ⟨calls, heq, hcalls⟩ := Exchange.fromOrigin_logged hstep (callsOf host rounds)
  rcases hcalls with rfl | ⟨ht, body, headers, rfl⟩
  · rw [List.append_nil] at heq
    exact ⟨rounds, h.skip hasks h.opened state response, heq⟩
  · obtain ⟨earlier, last, rfl⟩ :=
      (List.eq_nil_or_concat' rounds).resolve_left (h.rounds_ne_nil ht)
    refine ⟨earlier ++ [last.look body headers],
      h.skip hasks (opened_look h.opened) state response, ?_⟩
    rw [heq]
    simp [callsOf, Round.calls_look, h.sameHost]

end Stands

variable {i : Interceptor σ} {clock now : Clock} {reads : List Read} {out : Output}
  {e : Exchange σ}

/-- The calls of a run, in their rounds. -/
theorem run_logged (h : (tappedTunnel i host markers clock).run i reads =
      .ok (out, ⟨now, .tapped e⟩)) :
    ∃ rounds, Stands host markers reads rounds e ∧
      (tappedTunnel i.logged host markers clock).run i.logged reads =
        .ok (out, ⟨now, .tapped (e.logging (callsOf host rounds))⟩) := by
  induction reads using List.reverseRecOn generalizing out now e with
  | nil =>
    cases h
    exact ⟨[], stands_fresh i, rfl⟩
  | append_singleton reads r ih =>
    obtain ⟨out₁, t₁, out₂, hbefore, hlast, rfl⟩ := run_append_ok.mp h
    obtain ⟨now₁, e₁, rfl⟩ := exists_of_run_tapped hbefore
    obtain ⟨rounds, hstands, hlogged⟩ := ih hbefore
    obtain ⟨d, e₂, hd, hpass, heq⟩ := step_tapped_ok.mp (run_singleton_ok.mp hlast)
    cases heq
    have hconcat : ∀ rounds', Passes i.logged (e₁.logging (callsOf host rounds)) r out₂
        (e.logging (callsOf host rounds')) →
        (tappedTunnel i.logged host markers clock).run i.logged (reads ++ [r]) =
          .ok (out₁ ++ out₂, ⟨_, .tapped (e.logging (callsOf host rounds'))⟩) := fun _ hp =>
      run_append_ok.mpr ⟨_, _, _, hlogged,
        run_singleton_ok.mpr (step_tapped_ok.mpr ⟨d, _, hd, hp, rfl⟩), rfl⟩
    cases hpass with
    | client side =>
      obtain ⟨rounds', hstands', hcall⟩ := hstands.client i side
      refine ⟨rounds', hstands', hconcat rounds' ?_⟩
      have hpass' := Passes.client (i := i.logged) (e := e₁.logging (callsOf host rounds)) side
      rwa [hcall] at hpass'
    | origin side observed =>
      obtain ⟨rounds', hstands', hcall⟩ := hstands.origin side observed
      exact ⟨rounds', hstands', hconcat rounds' (.origin side hcall)⟩

/-- Of a read something is published only if the last request before it was a tapped one, and data
bear the time of that request. -/
def Gated (markers : List String) (earlier : List Read) (r : Read) (published : List Envelope) :
    Prop :=
  published ≠ [] → r.side = .origin ∧ ∃ asking path, LastRequest earlier asking path ∧
    Http.Marked markers path ∧ ∀ ts report, .data ts report ∈ published → ts = asking.time

theorem gated_of_step {rounds : List Round} (h : Stands host markers reads rounds e) {r : Read}
    {told : Output} {t : Tunnel σ}
    (hstep : (⟨clock, .tapped e⟩ : Tunnel σ).step i r = .ok (told, t)) :
    Gated markers reads r told.published := by
  intro hne
  obtain ⟨d, e', -, hpass, rfl⟩ := step_tapped_ok.mp hstep
  cases hpass with
  | client side => exact absurd rfl hne
  | origin side observed =>
    obtain ⟨htapping, hts⟩ := Exchange.published_of_fromOrigin observed
    obtain ⟨asking, path, hlast, hm, htime⟩ := h.last (htapping hne)
    exact ⟨side, asking, path, hlast, hm, fun ts report hmem => (hts ts report hmem).trans htime⟩

/-- How far a run gets: to its end, or to a read that it crashes at. -/
theorem exists_run_prefix (i : Interceptor σ) (t : Tunnel σ) (reads : List Read) :
    ∃ done rest out t', reads = done ++ rest ∧ t.run i done = .ok (out, t') ∧
      ∀ r ∈ rest.head?, ∃ crash, t'.step i r = .error crash := by
  induction reads generalizing t with
  | nil => exact ⟨[], [], .none, t, rfl, rfl, nofun⟩
  | cons r reads ih =>
    cases hs : t.step i r with
    | error crash =>
      refine ⟨[], r :: reads, .none, t, rfl, rfl, fun r' hr' => ⟨crash, ?_⟩⟩
      cases hr'
      exact hs
    | ok result =>
      obtain ⟨out₁, t₁⟩ := result
      obtain ⟨done, rest, out₂, t₂, rfl, hrun, hstop⟩ := ih t₁
      exact ⟨r :: done, rest, _, t₂, rfl, run_cons_ok.mpr ⟨_, _, _, hs, hrun, rfl⟩, hstop⟩

-- A tapped request and its response, and then a request that is not to be tapped and its own.
example :
    let i := (Tap.Stream.interceptor false false).logged
    let answer := Read.ofOrigin (Utf8.encode "HTTP/1.1 200 OK\r\n\r\n")
    let other : Read := ⟨.client, Utf8.encode "GET / HTTP/1.1\r\n\r\n", 0, .zero⟩
    let start := tappedTunnel i "localhost" ["/ask"] ⟨some 600, 0⟩
    (match start.run i [ask, answer, other, answer] with
      | .ok (_, ⟨_, .tapped e⟩) => e.state.2.map Call.isResponse
      | _ => []) = [false, false, true] := by
  decide +kernel

end Tunnel

end Wiretap
