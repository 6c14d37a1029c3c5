import Wiretap.Proofs.Number.Digits
import Wiretap.Proofs.Session.Policy
import Wiretap.Proofs.Tunnel.Breakdown

/-!
# How long a session may be idle

An environment sets the seconds without traffic after which a tunnel ends (`Config.Limits`): any
positive number of 64 bits (`Config.exists_ofLookup_iff`). The clock of a tunnel adds them to the
moment of the last traffic and can tell moments of 63 bits only, so a limit that is accepted may be
one that no wait can be given (`Server.session_deadlines`).
-/

namespace Wiretap

namespace Text

theorem isBlank_of_isDigit {c : Char} (h : c.isDigit = true) : isBlank c = false := by
  rw [Char.isDigit_iff_toNat] at h
  change 48 ≤ c.toNat ∧ c.toNat ≤ 57 at h
  simp [isBlank]
  omega

theorem trimChars_of_not_blank {cs : List Char} (h : ∀ c ∈ cs, isBlank c = false) :
    trimChars cs = cs := by
  have hdrop {cs : List Char} (h : ∀ c ∈ cs, isBlank c = false) : cs.dropWhile isBlank = cs := by
    cases cs with
    | nil => rfl
    | cons c cs => rw [List.dropWhile_cons_of_neg (by simp [h c List.mem_cons_self])]
  rw [trimChars, trimEnd, hdrop h, hdrop fun c hc => h c (List.mem_reverse.mp hc),
    List.reverse_reverse]

end Text

namespace Config

/-! ## Limits in the environment -/

/-- What an environment says of the seconds that are allowed: ten minutes if it says nothing, no
limit if it says zero, and else what it says. -/
inductive Limits (lookup : String → Option String) : Option Nat → Prop
  | unset (h : ∀ value, ¬ Sets lookup idleVar value) : Limits lookup (some 600)
  | never {value : String} (h : Sets lookup idleVar value)
      (hn : Number.word64? (Text.trimChars value.toList) = some 0) : Limits lookup none
  | seconds {value : String} {n : Nat} (h : Sets lookup idleVar value)
      (hn : Number.word64? (Text.trimChars value.toList) = some n) (hpos : 0 < n) :
      Limits lookup (some n)

theorem Limits.bounds {lookup : String → Option String} {n : Nat} (h : Limits lookup (some n)) :
    0 < n ∧ n ≤ Number.word64 := by
  cases h with
  | unset => decide
  | seconds _ hn hpos => exact ⟨hpos, Number.unsigned?_le hn⟩

theorem limits_of_idle? {lookup : String → Option String} {value : String} {limit : Option Nat}
    (hset : Sets lookup idleVar value) (h : idle? value = .ok limit) : Limits lookup limit := by
  unfold idle? at h
  split at h
  · rename_i hn
    cases h
    exact .never hset hn
  · rename_i n hne hn
    cases h
    exact .seconds hset hn (Nat.pos_of_ne_zero hne)
  · cases h

theorem limits_of_ofLookup {lookup : String → Option String} {c : Config}
    (h : ofLookup lookup = .ok c) : Limits lookup c.idle := by
  have hidle := (ofLookup_fields h).2.2
  cases hvalue : (lookup idleVar).filter (!Text.isBlankText ·) with
  | none =>
    rw [hvalue] at hidle
    rw [← Except.ok.inj hidle]
    refine .unset fun value hset => ?_
    rw [hset.1, Option.filter_some_pos (by simp [hset.2])] at hvalue
    cases hvalue
  | some value =>
    rw [hvalue] at hidle
    obtain ⟨hlookup, hblank⟩ := Option.filter_eq_some_iff.mp hvalue
    exact limits_of_idle? ⟨hlookup, by simpa using hblank⟩ hidle

/-- An environment in which nothing is set but the limit. -/
def onlyIdle (value : String) : String → Option String :=
  fun name => if name = idleVar then some value else none

theorem ofLookup_onlyIdle {value : String} (h : Text.isBlankText value = false) :
    ofLookup (onlyIdle value) = (idle? value).map fun idle => { default with idle } := by
  have hidle : onlyIdle value idleVar = some value := if_pos rfl
  have hset : (some value).filter (!Text.isBlankText ·) = some value :=
    Option.filter_some_pos (by simp [h])
  have hother (name : String) (hne : name ≠ idleVar) : onlyIdle value name = none := if_neg hne
  unfold ofLookup
  simp only [hidle, hother portVar (by decide), hother interceptVar (by decide),
    hother hostVar (by decide), hother certDirVar (by decide), hother logDirVar (by decide),
    hother dumpVar (by decide), hother "UNIFIED_PROXY_CONFIG" (by decide),
    hother "HTTPS_PROXY" (by decide), proxyVars, List.findSome?_cons, List.findSome?_nil,
    Option.filter_none, hset, setting]
  cases idle? value <;> rfl

theorem idle?_decimal {n : Nat} (hpos : 0 < n) (hle : n ≤ Number.word64) :
    idle? (String.ofList (Number.decimal n)) = .ok (some n) := by
  have hnumber : Number.word64? (Number.decimal n) = some n := Number.unsigned?_decimal hle
  unfold idle?
  rw [String.toList_ofList, Text.trimChars_of_not_blank fun c hc =>
    Text.isBlank_of_isDigit (Number.isDigit_decimal hc), hnumber]
  cases n with
  | zero => cases hpos
  | succ n => rfl

/-- Limits of all positive numbers of 64 bits are accepted, and no others. -/
theorem exists_ofLookup_iff {n : Nat} :
    (∃ lookup c, ofLookup lookup = .ok c ∧ c.idle = some n) ↔ 0 < n ∧ n ≤ Number.word64 := by
  constructor
  · rintro ⟨lookup, c, hc, hidle⟩
    exact (hidle ▸ limits_of_ofLookup hc).bounds
  · rintro ⟨hpos, hle⟩
    have hblank : Text.isBlankText (String.ofList (Number.decimal n)) = false := by
      obtain ⟨c, hc⟩ := List.exists_mem_of_ne_nil _ (Nat.toDigits_ne_nil (b := 10) (n := n))
      rw [Text.isBlankText, String.toList_ofList, List.all_eq_false]
      exact ⟨c, hc, by simp [Text.isBlank_of_isDigit (Number.isDigit_decimal hc)]⟩
    refine ⟨onlyIdle (String.ofList (Number.decimal n)), { default with idle := some n }, ?_, rfl⟩
    rw [ofLookup_onlyIdle hblank, idle?_decimal hpos hle]
    rfl

end Config

namespace Server

/-! ## Sessions -/

theorem exists_serves (c : Config) : ∃ s, Serves c s := by
  obtain ⟨s, v, h⟩ : ∃ s v, ofConfig c (.empty "certs") default = (.ok s, v) := ⟨_, _, rfl⟩
  exact ⟨s, .made h⟩

variable {σ : Type} (net : Net.Network) (i : Interceptor σ) (c : Client) (now : Tunnel.Moment)
  (turns : List Tunnel.Turn)

/-- The tunnel of a session begins with the server's limit, and what is relayed is a run of it. -/
theorem session_tunnel (s : Server) :
    let session := (s.session net i c now turns).1
    (∃ reads, session.relayed = session.tunnel.map (·.run i reads)) ∧
      ∀ t ∈ session.tunnel, t.clock = ⟨s.config.idle, now⟩ := by
  have hconfig := config_grant s c.closes c.plain
  cases hgrant : s.grant c.closes c.plain with
  | mk result s' =>
    rw [hgrant] at hconfig
    cases result with
    | error e =>
      rw [session_refused net i now turns hgrant]
      exact ⟨⟨[], rfl⟩, nofun⟩
    | ok g =>
      cases hresult : (s'.carryOut net c.closes c.hello g).result with
      | error e =>
        rw [session_unreached net i now turns hgrant hresult]
        exact ⟨⟨[], rfl⟩, nofun⟩
      | ok reached =>
        rw [session_reached net i now turns hgrant hresult, ← hconfig]
        refine ⟨⟨_, rfl⟩, fun t ht => ?_⟩
        cases ht
        rfl

/-- Whatever limit the environment sets, it is that of every tunnel: a wait ends so many seconds
after the last traffic if the clock can tell that moment. The clock brings a relay down, be it a
blind one or a tapped one, if and only if it cannot. -/
theorem session_deadlines {lookup : String → Option String} {config : Config}
    (hconfig : Config.ofLookup lookup = .ok config) {s : Server} (hs : Serves config s) :
    let session := (s.session net i c now turns).1
    Config.Limits lookup config.idle ∧
    (∃ reads, session.relayed = session.tunnel.map (·.run i reads)) ∧
    ∀ t ∈ session.tunnel, ∀ reads,
      (∀ out t', t.run i reads = .ok (out, t') →
        (∀ d, t'.clock.deadline = .ok d ↔
          d = config.idle.map (Tunnel.lastTraffic now reads + ·) ∧
            ∀ limit ∈ config.idle, Tunnel.lastTraffic now reads + limit ≤ Tunnel.lastMoment) ∧
        (∀ crash, t'.clock.deadline = .error crash ↔ crash = .clockOverflow ∧
          ∃ limit ∈ config.idle, Tunnel.lastMoment < Tunnel.lastTraffic now reads + limit)) ∧
      (t.run i reads = .error .clockOverflow ↔
        ∃ before r after out t', reads = before ++ r :: after ∧ t.run i before = .ok (out, t') ∧
          ∃ limit ∈ config.idle,
            Tunnel.lastMoment < Tunnel.lastTraffic now before + limit) := by
  obtain ⟨hrelayed, htunnel⟩ := session_tunnel net i c now turns s
  refine ⟨Config.limits_of_ofLookup hconfig, hrelayed, fun t ht reads => ?_⟩
  have hclock : t.clock = ⟨config.idle, now⟩ := by rw [htunnel t ht, hs.config_eq]
  refine ⟨fun out t' hrun => ?_, ?_⟩
  · rw [Tunnel.run_clock hrun, hclock]
    exact ⟨fun d => Tunnel.Clock.deadline_eq_ok_iff, fun crash => Tunnel.Clock.deadline_eq_error_iff⟩
  · rw [Tunnel.run_overflow_iff, hclock]

/-- A network in which every host sends a greeting. -/
def greeters : Net.Network :=
  ⟨fun _ => .ok [Net.Network.loopback], fun _ _ => .ok ⟨Utf8.encode "welcome", true, none⟩⟩

/-- A client that sends one, too. -/
def greeted : Client :=
  { (default : Client) with
    plain := Utf8.encode "CONNECT tap.test:443 HTTP/1.1\r\n\r\nhello" }

/-- The reads in which it comes at a moment. -/
def greetingAt (moment : Tunnel.Moment) : List Tunnel.Read :=
  [⟨.client, Utf8.encode "hello", moment, .zero⟩]

theorem session_greeted {s : Server} (hpolicy : s.policy.decrypts "tap.test" = false)
    (hproxy : s.config.proxy = none) (moment : Tunnel.Moment) :
    let tunnel : Tunnel σ := ⟨⟨s.config.idle, 0⟩, .blind⟩
    let reads := greetingAt moment
    let session := (s.session greeters i greeted 0 (reads.map Tunnel.Read.turn)).1
    session.opening.reply = Tunnel.established ∧ session.opening.result.isOk ∧
      session.tunnel = some tunnel ∧ session.relayed = some (tunnel.run i reads) := by
  intro tunnel reads session
  let target : Net.Target := ⟨"tap.test", 443⟩
  have hrequest : Tunnel.Requests greeted.closes greeted.plain target
      (Bytes.crlf ++ Utf8.encode "hello") :=
    Tunnel.requests_iff.mpr ⟨Utf8.encode "CONNECT tap.test:443 HTTP/1.1\r", by decide +kernel⟩
  have hskip : Tunnel.skipHeaders greeted.closes (Bytes.crlf ++ Utf8.encode "hello") =
      some (Utf8.encode "hello") := by decide +kernel
  have hway :
      Outbound.Leads greeters target.host target.port s.config.proxy (Utf8.encode "welcome") :=
    hproxy ▸ .straight (show greeters.peer "tap.test" 443 = .ok ⟨_, true, none⟩ from rfl)
  have hblind : s.tunnel i target.host 0 = tunnel := tunnel_blind hpolicy i 0
  have hbegins : Tunnel.Unread.Begins ⟨Utf8.encode "hello", Utf8.encode "welcome"⟩ reads
      ⟨[], Utf8.encode "welcome"⟩ := by
    refine ⟨fun r hr => ?_, by rintro (_ | _) <;> rfl⟩
    rw [List.mem_singleton.mp hr]
    show Utf8.encode "hello" ≠ [] ∧ (Utf8.encode "hello").length ≤ Tunnel.chunkSize
    decide +kernel
  obtain ⟨sent, socket, hsocket, hopening⟩ := carryOut_blind hskip hway greeted.hello
  have hsession := session_reached greeters i 0 (reads.map Tunnel.Read.turn)
    (grant_blind hrequest hpolicy) (congrArg Opening.result hopening)
  simp only [hopening, hblind, hsocket, hbegins.reads_eq, Option.isSome_none, Bool.false_eq_true,
    if_false] at hsession
  rw [show session = _ from congrArg Prod.fst hsession]
  exact ⟨rfl, rfl, rfl, rfl⟩

/-- With a limit of five seconds a wait that begins at the third ends at the eighth. -/
theorem session_deadlines_five :
    let lookup := Config.onlyIdle " 5 "
    let stock := Tap.Stream.interceptor false false
    let reads := greetingAt 3
    ∃ config s t out t', Config.ofLookup lookup = .ok config ∧ Serves config s ∧
      (s.session greeters stock greeted 0 (reads.map Tunnel.Read.turn)).1.tunnel = some t ∧
      t.run stock reads = .ok (out, t') ∧ t'.clock.deadline = .ok (some 8) := by
  intro lookup stock reads
  have hconfig : Config.ofLookup lookup = .ok { Config.default with idle := some 5 } := by
    decide +kernel
  obtain ⟨s, hs⟩ := exists_serves { Config.default with idle := some 5 }
  have hpolicy : s.policy.decrypts "tap.test" = false := by
    rw [policy, hs.config_eq]
    decide +kernel
  obtain ⟨-, -, htunnel, -⟩ := session_greeted stock hpolicy (by rw [hs.config_eq]; rfl) 3
  obtain ⟨-, -, hdeadlines⟩ :=
    session_deadlines greeters stock greeted 0 (reads.map Tunnel.Read.turn) hconfig hs
  rw [hs.config_eq] at htunnel
  obtain ⟨hclock, -⟩ := hdeadlines _ htunnel reads
  refine ⟨_, s, _, _, _, hconfig, hs, htunnel, rfl, ?_⟩
  exact ((hclock _ _ rfl).1 _).mpr ⟨rfl, by decide⟩

/-- The largest limit is accepted, and no wait can be given it: the session is opened, and at its
first read the relay breaks down. -/
theorem not_deadline_vast :
    let lookup := Config.onlyIdle "18446744073709551615"
    let stock := Tap.Stream.interceptor false false
    let reads := greetingAt 0
    ∃ config s, Config.ofLookup lookup = .ok config ∧ Serves config s ∧
      config.idle = some 18446744073709551615 ∧
      (∀ last, (⟨config.idle, last⟩ : Tunnel.Clock).deadline = .error .clockOverflow) ∧
      let session := (s.session greeters stock greeted 0 (reads.map Tunnel.Read.turn)).1
      session.opening.reply = Tunnel.established ∧ session.opening.result.isOk ∧
        session.relayed = some (.error .clockOverflow) := by
  intro lookup stock reads
  have hconfig : Config.ofLookup lookup =
      .ok { Config.default with idle := some 18446744073709551615 } := by
    decide +kernel
  obtain ⟨s, hs⟩ := exists_serves { Config.default with idle := some 18446744073709551615 }
  have hpolicy : s.policy.decrypts "tap.test" = false := by
    rw [policy, hs.config_eq]
    decide +kernel
  have hlate (last : Tunnel.Moment) : (⟨some 18446744073709551615, last⟩ : Tunnel.Clock).deadline =
      .error .clockOverflow := by
    refine Tunnel.Clock.deadline_eq_error_iff.mpr ⟨rfl, _, rfl, ?_⟩
    exact Nat.lt_of_lt_of_le (by decide) (Nat.le_add_left _ last)
  obtain ⟨hreply, hresult, -, hrelayed⟩ :=
    session_greeted stock hpolicy (by rw [hs.config_eq]; rfl) 0
  refine ⟨_, s, hconfig, hs, rfl, hlate, hreply, hresult, ?_⟩
  rw [hrelayed, hs.config_eq]
  exact congrArg some (Tunnel.run_singleton_error.mpr (Tunnel.step_of_late (hlate 0) _))

end Server

end Wiretap
