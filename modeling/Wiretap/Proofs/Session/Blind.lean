import Wiretap.Proofs.Outbound.Ways
import Wiretap.Proofs.Session.Headers
import Wiretap.Proofs.Tunnel.Fidelity

/-!
# Blind sessions

The bytes behind the headers of a request, and those behind the answer of a proxy, are what a
blind relay sends on: at every turn each side has got the first part of what the other one sends,
and what it has not got is still to be read (`session_blind`).
-/

namespace Wiretap

namespace Tunnel

/-! ## The headers of a request -/

/-- The two ends that lines may have. -/
def IsEol (eol : Bytes) : Prop := eol = Bytes.crlf ∨ eol = [Bytes.lf]

/-- Lines, all with one kind of end, and an empty line behind them. -/
def headerBlock (eol : Bytes) (lines : List Bytes) : Bytes := lines.flatMap (· ++ eol) ++ eol

theorem IsEol.exists_bytes {eol : Bytes} (h : IsEol eol) : ∃ e : Http.Eol, e.bytes = eol := by
  rcases h with rfl | rfl
  · exact ⟨.crlf, rfl⟩
  · exact ⟨.lf, rfl⟩

theorem skipHeaders_block {eol : Bytes} (heol : IsEol eol) {lines : List Bytes}
    (hlines : ∀ l ∈ lines, Http.IsLine l) (hn : (headerBlock eol lines).length ≤ chunkSize)
    (closed : Bool) (rest : Bytes) :
    skipHeaders closed (headerBlock eol lines ++ rest) = some rest := by
  obtain ⟨e, rfl⟩ := heol.exists_bytes
  obtain ⟨headers, hbytes, -, heol⟩ := Http.exists_linesBytes hlines e
  have hblock : headerBlock e.bytes lines = (⟨headers, e⟩ : Preamble).bytes := by
    rw [headerBlock, Preamble.bytes, hbytes]
  rw [hblock] at hn ⊢
  refine skipHeaders_of_seen ?_ hn closed rest
  rintro ⟨hlast, rfl⟩
  obtain ⟨last, hlast, hlf⟩ := Option.map_eq_some_iff.mp hlast
  rw [heol last (List.mem_of_getLast? hlast)] at hlf
  cases hlf

/-! ## What is read and what is not -/

/-- What one side sends and the relay has not read. -/
def Unread.left (u : Unread) : Side → Bytes
  | .client => u.client
  | .origin => u.origin

theorem bytesFrom_cons (side : Side) (r : Read) (reads : List Read) :
    bytesFrom side (r :: reads) = bytesFrom side [r] ++ bytesFrom side reads :=
  bytesFrom_append side [r] reads

namespace Unread

theorem next_left (u : Unread) (t : Turn) (side : Side) :
    bytesFrom side [(u.next t).1] ++ (u.next t).2.left side = u.left side := by
  obtain ⟨turn, count, moment, time⟩ := t
  cases turn <;> cases side <;> simp [next, bytesFrom, Unread.left]

theorem next_moment (u : Unread) (t : Turn) : (u.next t).1.moment = t.moment := by
  unfold next
  cases t.side <;> rfl

/-- Turn by turn, what is read comes before what is not. -/
theorem reads_left (u : Unread) (turns : List Turn) (side : Side) :
    bytesFrom side (u.reads turns).1 ++ (u.reads turns).2.left side = u.left side := by
  induction turns generalizing u with
  | nil => rfl
  | cons t turns ih =>
    unfold reads
    simp only
    split
    · rfl
    · rw [bytesFrom_cons, List.append_assoc, ih, next_left]

theorem exists_turn {u : Unread} {turns : List Turn} {r : Read} (h : r ∈ (u.reads turns).1) :
    ∃ t ∈ turns, r.moment = t.moment := by
  induction turns generalizing u with
  | nil => cases h
  | cons t turns ih =>
    unfold reads at h
    simp only at h
    split at h
    · cases h
    · rcases List.mem_cons.mp h with rfl | h
      · exact ⟨t, List.mem_cons_self, next_moment u t⟩
      · obtain ⟨t', ht', hr⟩ := ih h
        exact ⟨t', List.mem_cons_of_mem t ht', hr⟩

end Unread

/-- The turn in which a read is made. -/
def Read.turn (r : Read) : Turn := ⟨r.side, r.bytes.length, r.moment, r.time⟩

/-- Both streams begin with the bytes of reads, each of a size that can be read at once. -/
structure Unread.Begins (u : Unread) (reads : List Read) (rest : Unread) : Prop where
  sized : ∀ r ∈ reads, r.bytes ≠ [] ∧ r.bytes.length ≤ chunkSize
  left_eq : ∀ side, u.left side = bytesFrom side reads ++ rest.left side

theorem Unread.Begins.next {u rest : Unread} {r : Read} {reads : List Read}
    (h : u.Begins (r :: reads) rest) :
    (u.next r.turn).1 = r ∧ (u.next r.turn).2.Begins reads rest := by
  obtain ⟨⟨-, hlen⟩, hsized⟩ := List.forall_mem_cons.mp h.sized
  obtain ⟨client, origin⟩ := u
  obtain ⟨side, bytes, moment, time⟩ := r
  have hclient := h.left_eq .client
  have horigin := h.left_eq .origin
  rw [bytesFrom_cons, List.append_assoc] at hclient horigin
  have hmin : min bytes.length chunkSize = bytes.length := Nat.min_eq_left hlen
  cases hclient
  cases horigin
  refine ⟨?_, hsized, fun other => ?_⟩
  · cases side <;> simp [Unread.next, Read.turn, hmin, bytesFrom]
  · cases side <;> cases other <;> simp [Unread.next, Read.turn, hmin, bytesFrom, Unread.left]

/-- However the two streams are cut into reads, and in whatever order, turns make these reads. -/
theorem Unread.Begins.reads_eq {u rest : Unread} {reads : List Read} (h : u.Begins reads rest) :
    u.reads (reads.map Read.turn) = (reads, rest) := by
  induction reads generalizing u with
  | nil =>
    obtain ⟨client, origin⟩ := u
    have hclient : client = rest.client := h.left_eq .client
    have horigin : origin = rest.origin := h.left_eq .origin
    rw [hclient, horigin]
    rfl
  | cons r reads ih =>
    obtain ⟨hr, hrest⟩ := h.next
    obtain ⟨hne, -⟩ := h.sized r List.mem_cons_self
    rw [List.map_cons, Unread.reads]
    simp only [hr, ih hrest]
    rw [if_neg (by simpa using hne)]

/-! ## Blind runs -/

variable {σ : Type}

theorem run_blind_eq {i : Interceptor σ} {clock : Clock} {reads : List Read} {out : Output}
    {t : Tunnel σ} (h : (⟨clock, .blind⟩ : Tunnel σ).run i reads = .ok (out, t)) :
    out = ⟨bytesFrom .origin reads, bytesFrom .client reads, []⟩ := by
  induction reads generalizing clock out with
  | nil =>
    cases h
    rfl
  | cons r reads ih =>
    obtain ⟨out₁, t₁, out₂, hstep, hrest, rfl⟩ := run_cons_ok.mp h
    cases hd : clock.deadline with
    | error crash =>
      rw [step_of_late hd] at hstep
      cases hstep
    | ok d =>
      rw [step_blind hd] at hstep
      cases hstep
      rw [ih hrest, bytesFrom_cons .origin r reads, bytesFrom_cons .client r reads]
      rfl

theorem deadline_ok {c : Clock} (h : ∀ limit ∈ c.limit, c.last + limit ≤ lastMoment) :
    ∃ d, c.deadline = .ok d :=
  ⟨_, Clock.deadline_eq_ok_iff.mpr ⟨rfl, h⟩⟩

/-- A blind relay sends all that it reads to the other side, unless its clock cannot tell when a
wait ends. -/
theorem run_blind_cases (i : Interceptor σ) (clock : Clock) (reads : List Read) :
    (∃ t, (⟨clock, .blind⟩ : Tunnel σ).run i reads =
      .ok (⟨bytesFrom .origin reads, bytesFrom .client reads, []⟩, t)) ∨
    (⟨clock, .blind⟩ : Tunnel σ).run i reads = .error .clockOverflow ∧
      ∃ limit ∈ clock.limit, ∃ m ∈ clock.last :: reads.map Read.moment, lastMoment < m + limit := by
  cases hrun : (⟨clock, .blind⟩ : Tunnel σ).run i reads with
  | ok result =>
    obtain ⟨out, t⟩ := result
    rw [run_blind_eq hrun]
    exact .inl ⟨t, rfl⟩
  | error crash =>
    cases run_blind_error hrun
    refine .inr ⟨rfl, ?_⟩
    by_contra! hin
    obtain ⟨out, t, hok⟩ : ∃ out t, (⟨clock, .blind⟩ : Tunnel σ).run i reads = .ok (out, t) := by
      refine run_blind_ok (deadline_ok fun limit hlimit => ?_) fun r hr =>
        deadline_ok fun limit hlimit => ?_
      · exact hin limit hlimit _ List.mem_cons_self
      · exact hin limit hlimit _ (List.mem_cons_of_mem _ (List.mem_map_of_mem hr))
    rw [hrun] at hok
    cases hok

/-- What a blind relay has sent to a side, and what is unread for it, is what was unread before. -/
theorem run_turns_cases (i : Interceptor σ) (clock : Clock) (u : Unread) (turns : List Turn) :
    (∃ out t, (⟨clock, .blind⟩ : Tunnel σ).run i (u.reads turns).1 = .ok (out, t) ∧
      out.toOrigin ++ (u.reads turns).2.client = u.client ∧
      out.toClient ++ (u.reads turns).2.origin = u.origin) ∨
    (⟨clock, .blind⟩ : Tunnel σ).run i (u.reads turns).1 = .error .clockOverflow ∧
      ∃ limit ∈ clock.limit, ∃ m ∈ clock.last :: turns.map Turn.moment, lastMoment < m + limit := by
  rcases run_blind_cases i clock (u.reads turns).1 with
    ⟨t, hrun⟩ | ⟨hcrash, limit, hlimit, m, hm, hlate⟩
  · exact .inl ⟨_, t, hrun, u.reads_left turns .client, u.reads_left turns .origin⟩
  · refine .inr ⟨hcrash, limit, hlimit, m, ?_, hlate⟩
    rcases List.mem_cons.mp hm with rfl | hm
    · exact List.mem_cons_self
    · obtain ⟨r, hr, rfl⟩ := List.mem_map.mp hm
      obtain ⟨turn, hturn, hmoment⟩ := Unread.exists_turn hr
      exact List.mem_cons_of_mem clock.last (List.mem_map.mpr ⟨turn, hturn, hmoment.symm⟩)

end Tunnel

namespace Server

/-! ## Sessions -/

variable {σ : Type} {s : Server} {net : Net.Network} {c : Client} {target : Net.Target}

theorem grant_blind {rest : Bytes} (h : Tunnel.Requests c.closes c.plain target rest)
    (hpolicy : s.policy.decrypts target.host = false) :
    s.grant c.closes c.plain = (.ok ⟨target, none, rest⟩, s) := by
  rw [grant_of_requests h, present_blind hpolicy]
  rfl

/-- A connection that is not decrypted is made behind the headers. -/
theorem carryOut_blind {closed : Bool} {rest ahead incoming : Bytes}
    (hskip : Tunnel.skipHeaders closed rest = some ahead)
    (hway : Outbound.Leads net target.host target.port s.config.proxy incoming) (hello : Hello) :
    ∃ sent socket, socket.incoming = incoming ∧
      s.carryOut net closed hello ⟨target, none, rest⟩ =
        ⟨Tunnel.established, none, some ⟨.ok socket, sent⟩, .ok (socket, ahead)⟩ := by
  have hconnect := Outbound.connect_eq_ok_iff.mpr ⟨incoming, hway, rfl⟩
  unfold carryOut
  simp only [hskip]
  generalize Outbound.connect net s.config.proxy target.host target.port false = d at hconnect
  obtain ⟨result, sent⟩ := d
  cases hconnect
  exact ⟨sent, _, rfl, rfl⟩

theorem tunnel_blind {host : String} (h : s.policy.decrypts host = false) (i : Interceptor σ)
    (now : Tunnel.Moment) : s.tunnel i host now = ⟨⟨s.config.idle, now⟩, .blind⟩ := by
  unfold tunnel
  rw [h]
  rfl

/-- Behind the headers of its request the client's bytes go to the origin, and behind the answer
of a proxy the origin's go to the client: after any turns, what a side has been sent and what is
still to be read for it make up all that it is to get, and any reads that the streams can be cut
into are made. The relay crashes only if its clock cannot tell when a wait ends. -/
theorem session_blind {eol : Bytes} {lines : List Bytes} {fromClient fromOrigin : Bytes}
    (hrequest : Tunnel.Requests c.closes c.plain target
      (Tunnel.headerBlock eol lines ++ fromClient))
    (heol : Tunnel.IsEol eol) (hlines : ∀ l ∈ lines, Http.IsLine l)
    (hlength : (Tunnel.headerBlock eol lines).length ≤ 8192)
    (hpolicy : s.policy.decrypts target.host = false)
    (hway : Outbound.Leads net target.host target.port s.config.proxy fromOrigin)
    (i : Interceptor σ) (now : Tunnel.Moment) (turns : List Tunnel.Turn) :
    let session := (s.session net i c now turns).1
    session.opening.reply = Tunnel.established ∧ session.opening.alpn = none ∧
    ((∃ out t, session.relayed = some (.ok (out, t)) ∧
        out.toOrigin ++ session.unread.client = fromClient ∧
        out.toClient ++ session.unread.origin = fromOrigin) ∨
      session.relayed = some (.error .clockOverflow) ∧ ∃ limit ∈ s.config.idle,
        ∃ m ∈ now :: turns.map Tunnel.Turn.moment, Tunnel.lastMoment < m + limit) ∧
    ∀ reads rest, Tunnel.Unread.Begins ⟨fromClient, fromOrigin⟩ reads rest →
      turns = reads.map Tunnel.Read.turn → session.unread = rest := by
  have hskip := Tunnel.skipHeaders_block heol hlines hlength c.closes fromClient
  obtain ⟨sent, socket, hsocket, hopening⟩ := carryOut_blind hskip hway c.hello
  have hgrant := grant_blind hrequest hpolicy
  have hsession := session_reached net i now turns hgrant (congrArg Opening.result hopening)
  simp only [hopening, tunnel_blind hpolicy, hsocket, Option.isSome_none, Bool.false_eq_true,
    if_false] at hsession
  rw [hsession]
  refine ⟨rfl, rfl, ?_, fun reads rest hbegins hturns => ?_⟩
  · simp only [Option.some.injEq]
    exact Tunnel.run_turns_cases i ⟨s.config.idle, now⟩ ⟨fromClient, fromOrigin⟩ turns
  · rw [hturns, hbegins.reads_eq]

/-- Through an HTTP proxy, with bytes of both sides that are sent early. -/
theorem session_blind_early :
    let proxy : Proxy := ⟨default, "localhost", 3128, .http, none⟩
    let answer := Utf8.encode "HTTP/1.1 200 OK\r\n\r\n"
    let peer : Net.Peer := ⟨answer ++ Utf8.encode "welcome", true, none⟩
    let net : Net.Network := ⟨fun _ => .ok [Net.Network.loopback], fun _ _ => .ok peer⟩
    let s : Server := { (default : Server) with config := { Config.default with proxy } }
    let c : Client := { (default : Client) with
      plain := Utf8.encode "CONNECT tap.test:443 HTTP/1.1\r\nHost: tap.test\r\n\r\nhello" }
    let lines := [Utf8.encode "Host: tap.test"]
    let reads : List Tunnel.Read := [⟨.origin, Utf8.encode "wel", 0, .zero⟩,
      ⟨.client, Utf8.encode "hello", 1, .zero⟩]
    let stock := Tap.Stream.interceptor false false
    let session := (s.session net stock c 0 (reads.map Tunnel.Read.turn)).1
    Tunnel.Requests c.closes c.plain ⟨"tap.test", 443⟩
      (Tunnel.headerBlock Bytes.crlf lines ++ Utf8.encode "hello") ∧
    Tunnel.IsEol Bytes.crlf ∧ (∀ l ∈ lines, Http.IsLine l) ∧
    (Tunnel.headerBlock Bytes.crlf lines).length ≤ 8192 ∧
    s.policy.decrypts "tap.test" = false ∧
    Outbound.Leads net "tap.test" 443 s.config.proxy (Utf8.encode "welcome") ∧
    ∃ out t, session.relayed = some (.ok (out, t)) ∧ out.toOrigin = Utf8.encode "hello" ∧
      out.toClient ++ Utf8.encode "come" = Utf8.encode "welcome" := by
  intro proxy answer peer net s c lines reads stock session
  have hrequest : Tunnel.Requests c.closes c.plain ⟨"tap.test", 443⟩
      (Tunnel.headerBlock Bytes.crlf lines ++ Utf8.encode "hello") :=
    Tunnel.requests_iff.mpr ⟨Utf8.encode "CONNECT tap.test:443 HTTP/1.1\r", by decide +kernel⟩
  have hlines : ∀ l ∈ lines, Http.IsLine l := by decide +kernel
  have hlength : (Tunnel.headerBlock Bytes.crlf lines).length ≤ 8192 := by decide +kernel
  have hpolicy : s.policy.decrypts "tap.test" = false := by decide +kernel
  have hgrant : Proxy.HttpGrant answer :=
    ⟨⟨by decide +kernel, by decide +kernel⟩,
      200, Proxy.statusCode?_eq_some_iff.mp (by decide +kernel), by decide, by decide⟩
  have hway : Outbound.Leads net "tap.test" 443 s.config.proxy (Utf8.encode "welcome") :=
    .proxied (show net.peer proxy.host proxy.port = .ok peer from rfl) ⟨hgrant, trivial⟩ rfl
  refine ⟨hrequest, .inl rfl, hlines, hlength, hpolicy, hway, ?_⟩
  obtain ⟨-, -, hrelayed, hmade⟩ := session_blind hrequest (.inl rfl) hlines hlength hpolicy hway
    stock 0 (reads.map Tunnel.Read.turn)
  have hunread : session.unread = ⟨[], Utf8.encode "come"⟩ :=
    hmade reads _ ⟨by decide +kernel, by rintro (_ | _) <;> decide +kernel⟩ rfl
  rcases hrelayed with ⟨out, t, hout, horigin, hclient⟩ | ⟨-, limit, hlimit, m, hm, hlate⟩
  · rw [show (s.session net stock c 0 (reads.map Tunnel.Read.turn)).1.unread = _ from hunread]
      at horigin hclient
    exact ⟨out, t, hout, by simpa using horigin, hclient⟩
  · -- ten minutes after the first second
    cases hlimit
    exact absurd hlate (by revert m; decide)

end Server

end Wiretap
