import Wiretap.Proofs.Session.Blind

/-!
# Which sessions are decrypted

The environment lists the hosts whose tunnels are decrypted (`Config.Decrypts`), and no list
decrypts a passthrough host. A session goes the way of decryption exactly if its host is one of
those; any other leaves the server as it was, and its relay sees nothing to publish
(`session_policy`).
-/

namespace Wiretap

namespace Bytes

theorem splitOn_eq_iff {α : Type} [BEq α] [LawfulBEq α] {a : α} {s : List α}
    {items : List (List α)} : splitOn a s = items ↔
      items ≠ [] ∧ (∀ i ∈ items, a ∉ i) ∧ s = [a].intercalate items := by
  induction items generalizing s with
  | nil => simp [splitOn_ne_nil]
  | cons piece items ih =>
    cases items with
    | nil => simp [splitOn_eq_singleton_iff, and_comm]
    | cons next items =>
      rw [splitOn_eq_cons_cons_iff]
      simp only [ih, List.intercalate_cons_cons]
      constructor
      · rintro ⟨rest, rfl, hpiece, -, hitems, rfl⟩
        exact ⟨List.cons_ne_nil _ _, List.forall_mem_cons.mpr ⟨hpiece, hitems⟩, by simp⟩
      · rintro ⟨-, hall, rfl⟩
        obtain ⟨hpiece, hitems⟩ := List.forall_mem_cons.mp hall
        exact ⟨_, by simp, hpiece, List.cons_ne_nil _ _, hitems, rfl⟩

end Bytes

namespace Config

/-! ## Environments -/

/-- A variable is set to something else than blanks. -/
def Sets (lookup : String → Option String) (name value : String) : Prop :=
  lookup name = some value ∧ Text.isBlankText value = false

/-- An entry of the list of hosts to decrypt: what stands between commas, without the blanks at its
ends and unless it is blank, or the one entry of the default list if no list is set. -/
def Lists (lookup : String → Option String) (entry : String) : Prop :=
  (∃ value items, Sets lookup interceptVar value ∧ value.toList = [','].intercalate items ∧
    (∀ item ∈ items, ',' ∉ item) ∧
    ∃ item ∈ items, Text.trimChars item ≠ [] ∧ entry = String.ofList (Text.trimChars item)) ∨
  (∀ value, ¬ Sets lookup interceptVar value) ∧ entry = "*.google.com"

/-- Not a passthrough host, but an entry of the list or a name below one that begins with a star. -/
def Decrypts (lookup : String → Option String) (host : String) : Prop :=
  host ∉ defaultPassthrough ∧
    (Lists lookup host ∨
      ∃ suffix, Lists lookup (String.ofList ('*' :: '.' :: suffix)) ∧
        '.' :: suffix <:+ host.toList)

theorem trim_ofList (cs : List Char) : Text.trim (String.ofList cs) =
    String.ofList (Text.trimChars cs) := by
  unfold Text.trim
  rw [String.toList_ofList]

theorem isEmpty_ofList {cs : List Char} : (String.ofList cs).isEmpty = false ↔ cs ≠ [] := by
  rw [← Bool.not_eq_true, String.isEmpty_iff, String.ofList_eq_empty_iff]

theorem mem_splitList_iff {value entry : String} :
    entry ∈ splitList value ↔ ∃ items, value.toList = [','].intercalate items ∧
      (∀ item ∈ items, ',' ∉ item) ∧
      ∃ item ∈ items, Text.trimChars item ≠ [] ∧ entry = String.ofList (Text.trimChars item) := by
  unfold splitList Text.splitOn
  simp only [List.mem_filter, List.mem_map, exists_exists_and_eq_and, trim_ofList]
  constructor
  · rintro ⟨⟨item, hitem, rfl⟩, hne⟩
    obtain ⟨-, hcomma, heq⟩ := Bytes.splitOn_eq_iff.mp (rfl : Bytes.splitOn ',' value.toList = _)
    rw [Bool.not_eq_true', isEmpty_ofList] at hne
    exact ⟨_, heq, hcomma, item, hitem, hne, rfl⟩
  · rintro ⟨items, heq, hcomma, item, hitem, hne, rfl⟩
    have hitems := Bytes.splitOn_eq_iff.mpr ⟨List.ne_nil_of_mem hitem, hcomma, heq⟩
    refine ⟨⟨item, hitems ▸ hitem, rfl⟩, ?_⟩
    rw [Bool.not_eq_true', isEmpty_ofList]
    exact hne

theorem ofLookup_fields {lookup : String → Option String} {c : Config}
    (h : ofLookup lookup = .ok c) :
    c.passthrough = defaultPassthrough ∧
      c.intercept = (((lookup interceptVar).filter (!Text.isBlankText ·)).map splitList).getD
        default.intercept ∧
      setting ((lookup idleVar).filter (!Text.isBlankText ·)) default.idle idle? = .ok c.idle := by
  unfold ofLookup at h
  simp only [bind, Except.bind, pure, Except.pure] at h
  -- port, idle limit and proxy may fail, each in its turn
  split at h
  · cases h
  split at h
  · cases h
  rename_i hidle
  split at h
  · cases h
  cases h
  exact ⟨rfl, rfl, hidle⟩

theorem mem_intercept_iff {lookup : String → Option String} {c : Config}
    (h : ofLookup lookup = .ok c) {entry : String} :
    entry ∈ c.intercept ↔ Lists lookup entry := by
  rw [(ofLookup_fields h).2.1]
  unfold Lists Sets
  cases hv : lookup interceptVar with
  | none => simp [default]
  | some value =>
    cases hb : Text.isBlankText value with
    | true =>
      rw [Option.filter_some_neg (by simp [hb])]
      simp [default, hb]
    | false =>
      rw [Option.filter_some_pos (by simp [hb])]
      simp [hb, mem_splitList_iff]

end Config

theorem Policy.wildcard?_eq_some_iff {entry : String} {ending : List Char} :
    wildcard? entry = some ending ↔
      ∃ suffix, entry = String.ofList ('*' :: '.' :: suffix) ∧ ending = '.' :: suffix := by
  unfold wildcard?
  constructor
  · intro h
    split at h
    · rename_i suffix hentry
      cases h
      exact ⟨suffix, by rw [← hentry, String.ofList_toList], rfl⟩
    · cases h
  · rintro ⟨suffix, rfl, rfl⟩
    simp only [String.toList_ofList]

theorem Policy.matchesWildcard_iff {entry host : String} : matchesWildcard entry host = true ↔
    ∃ suffix, entry = String.ofList ('*' :: '.' :: suffix) ∧ '.' :: suffix <:+ host.toList := by
  unfold matchesWildcard
  constructor
  · intro h
    split at h
    · rename_i ending hentry
      obtain ⟨suffix, rfl, rfl⟩ := wildcard?_eq_some_iff.mp hentry
      exact ⟨suffix, rfl, List.isSuffixOf_iff_suffix.mp h⟩
    · cases h
  · rintro ⟨suffix, rfl, hsuffix⟩
    rw [wildcard?_eq_some_iff.mpr ⟨suffix, rfl, rfl⟩]
    exact List.isSuffixOf_iff_suffix.mpr hsuffix

theorem Policy.decrypts_iff {p : Policy} {host : String} : p.decrypts host = true ↔
    host ∉ p.passthrough ∧ (host ∈ p.intercept ∨
      ∃ suffix, String.ofList ('*' :: '.' :: suffix) ∈ p.intercept ∧
        '.' :: suffix <:+ host.toList) := by
  unfold decrypts
  simp only [Bool.and_eq_true, Bool.not_eq_true', Bool.or_eq_true, List.contains_iff_mem,
    List.any_eq_true, matchesWildcard_iff, ← Bool.not_eq_true]
  refine and_congr_right' (or_congr_right ?_)
  constructor
  · rintro ⟨entry, hentry, suffix, rfl, hsuffix⟩
    exact ⟨suffix, hentry, hsuffix⟩
  · rintro ⟨suffix, hentry, hsuffix⟩
    exact ⟨_, hentry, suffix, rfl, hsuffix⟩

theorem Config.decrypts_iff {lookup : String → Option String} {c : Config}
    (h : ofLookup lookup = .ok c) {host : String} :
    c.policy.decrypts host = true ↔ Decrypts lookup host := by
  unfold Decrypts
  simp only [Policy.decrypts_iff, policy, (ofLookup_fields h).1, mem_intercept_iff h]

namespace Server

/-! ## Servers -/

/-- A server for a configuration: as it is made, after sessions with any clients, and whatever else
has become of its certificates. -/
inductive Serves (c : Config) : Server → Prop
  | made {s : Server} {v v' : Cert.Vault} {o : Outbox} (made : ofConfig c v o = (.ok s, v')) :
      Serves c s
  | session {s : Server} (earlier : Serves c s) {σ : Type} (net : Net.Network) (i : Interceptor σ)
      (client : Client) (now : Tunnel.Moment) (turns : List Tunnel.Turn) :
      Serves c (s.session net i client now turns).2
  | meanwhile {s : Server} (earlier : Serves c s) (registry : Cert.Registry) (vault : Cert.Vault) :
      Serves c { s with registry, vault }

theorem config_present (s : Server) (host : String) : (s.present host).2.config = s.config := by
  unfold present
  split <;> rfl

theorem config_grant (s : Server) (closed : Bool) (stream : Bytes) :
    (s.grant closed stream).2.config = s.config := by
  by_cases hr : ∃ target rest, Tunnel.Requests closed stream target rest
  · obtain ⟨target, rest, hr⟩ := hr
    rw [grant_of_requests hr]
    exact config_present s target.host
  · push Not at hr
    obtain ⟨e, he⟩ := grant_of_not_requests (s := s) hr
    rw [he]

theorem config_session {σ : Type} (s : Server) (net : Net.Network) (i : Interceptor σ)
    (c : Client) (now : Tunnel.Moment) (turns : List Tunnel.Turn) :
    (s.session net i c now turns).2.config = s.config := by
  rw [← config_grant s c.closes c.plain]
  cases hgrant : s.grant c.closes c.plain with
  | mk result s' =>
    cases result with
    | error e => rw [session_refused net i now turns hgrant]
    | ok g => rw [(session_granted net i now turns hgrant).2]

theorem Serves.config_eq {c : Config} {s : Server} (h : Serves c s) : s.config = c := by
  induction h with
  | @made s v v' o made =>
    unfold ofConfig at made
    split at made
    · cases made
    · cases made
      rfl
  | session earlier net i client now turns ih => rw [config_session, ih]
  | meanwhile earlier registry vault ih => exact ih

/-! ## The way of decryption -/

/-- The certificate of a host is found or made, and a request is granted only with it. -/
def certify (s : Server) (target : Net.Target) (rest : Bytes) : Except Error Grant × Server :=
  let (result, registry, vault) := s.registry.ensure s.vault target.host
  (result.map fun record => ⟨target, some record, rest⟩, { s with registry, vault })

/-- A session goes the way of decryption: the host gets its certificate, the client is spoken to
in TLS, and the interceptor is there from the first byte that is relayed. -/
structure Decrypting {σ : Type} (s : Server) (i : Interceptor σ) (c : Client)
    (target : Net.Target) (rest : Bytes) (session : Session σ) : Prop where
  certified : s.grant c.closes c.plain = s.certify target rest
  secured : session.opening.dial.isSome → session.opening.alpn.isSome
  tapped : ∀ t ∈ session.tunnel, t.relay = .tapped (.fresh i target.host s.config.markers)

variable {s : Server} {c : Client} {target : Net.Target} {rest : Bytes}

theorem grant_eq_certify_iff (h : Tunnel.Requests c.closes c.plain target rest) :
    s.grant c.closes c.plain = s.certify target rest ↔ s.policy.decrypts target.host = true := by
  constructor
  · intro heq
    by_contra hpolicy
    rw [grant_blind h (Bool.eq_false_iff.mpr hpolicy)] at heq
    have hresult := congrArg Prod.fst heq
    unfold certify at hresult
    cases he : (s.registry.ensure s.vault target.host).1 <;> simp [he, Except.map] at hresult
  · intro hpolicy
    rw [grant_of_requests h]
    unfold present certify
    rw [if_pos hpolicy]
    obtain ⟨result, registry, vault⟩ := s.registry.ensure s.vault target.host
    cases result <;> rfl

section

variable {σ : Type} (net : Net.Network) (i : Interceptor σ) (now : Tunnel.Moment)
  (turns : List Tunnel.Turn)

theorem decrypting_iff (h : Tunnel.Requests c.closes c.plain target rest) :
    Decrypting s i c target rest (s.session net i c now turns).1 ↔
      s.policy.decrypts target.host = true := by
  refine ⟨fun hd => (grant_eq_certify_iff h).mp hd.certified, fun hpolicy => ?_⟩
  have hcertified := (grant_eq_certify_iff h).mpr hpolicy
  cases hgrant : s.grant c.closes c.plain with
  | mk result s' =>
    cases result with
    | error e =>
      rw [session_refused net i now turns hgrant]
      exact ⟨hcertified, nofun, nofun⟩
    | ok g =>
      obtain ⟨hrequest, -⟩ := grant_eq_ok_iff.mp (congrArg Prod.fst hgrant)
      obtain ⟨htarget, -⟩ := hrequest.unique h
      have hrecord : g.record.isSome = true :=
        (grant_record (congrArg Prod.fst hgrant)).trans (htarget ▸ hpolicy)
      have hconfig : s'.config = s.config := by
        rw [← config_grant s c.closes c.plain, hgrant]
      obtain ⟨hcarries, -⟩ := session_granted net i now turns hgrant
      refine ⟨hcertified, fun hdial => ?_, fun t ht => ?_⟩
      · rw [hcarries.opening] at hdial ⊢
        rw [carryOut_alpn, hdial, hrecord]
        rfl
      · rw [hcarries.tunnel t ht]
        unfold policy at hpolicy
        unfold tunnel policy
        rw [htarget, hconfig, if_pos hpolicy]

/-- A session that is not decrypted leaves the server as it was, and its relay publishes nothing. -/
theorem session_undecrypted (h : ∀ target rest, Tunnel.Requests c.closes c.plain target rest →
    s.policy.decrypts target.host = false) :
    let session := (s.session net i c now turns).1
    (s.session net i c now turns).2 = s ∧ session.opening.alpn = none ∧
      (∀ t ∈ session.tunnel, t.relay = .blind) ∧
      ∀ out t, session.relayed = some (.ok (out, t)) → out.published = [] := by
  by_cases hr : ∃ target rest, Tunnel.Requests c.closes c.plain target rest
  · obtain ⟨target, rest, hr⟩ := hr
    have hpolicy := h target rest hr
    have hgrant := grant_blind hr hpolicy
    have halpn := carryOut_alpn s net c.closes c.hello ⟨target, none, rest⟩
    obtain ⟨hcarries, hafter⟩ := session_granted net i now turns hgrant
    refine ⟨hafter, ?_, fun t ht => ?_, fun out t hout => ?_⟩
    · simpa [hcarries.opening] using halpn
    · rw [hcarries.tunnel t ht, tunnel_blind hpolicy]
    · obtain ⟨reads, hrun⟩ := hcarries.relayed _ hout
      rw [tunnel_blind hpolicy] at hrun
      rw [Tunnel.run_blind_eq hrun.symm]
  · push Not at hr
    obtain ⟨e, he⟩ := grant_of_not_requests (s := s) hr
    rw [session_refused net i now turns he]
    exact ⟨rfl, rfl, nofun, nofun⟩

end

/-- Whatever the environment is, a session goes the way of decryption exactly if its host is listed
and is no passthrough host, of which none is ever decrypted. Any other session leaves the server
and the certificate directory as they were, has a blind relay, and publishes nothing. -/
theorem session_policy {lookup : String → Option String} {config : Config}
    (hconfig : Config.ofLookup lookup = .ok config) {s : Server} (hs : Serves config s) {σ : Type}
    (net : Net.Network) (i : Interceptor σ) (c : Client) (now : Tunnel.Moment)
    (turns : List Tunnel.Turn) :
    let session := (s.session net i c now turns).1
    (∀ target rest, Tunnel.Requests c.closes c.plain target rest →
      (Decrypting s i c target rest session ↔ Config.Decrypts lookup target.host)) ∧
    (∀ host ∈ defaultPassthrough, s.policy.decrypts host = false) ∧
    ((∀ target rest, Tunnel.Requests c.closes c.plain target rest →
        ¬ Decrypting s i c target rest session) →
      (s.session net i c now turns).2 = s ∧ session.opening.alpn = none ∧
        (∀ t ∈ session.tunnel, t.relay = .blind) ∧
        ∀ out t, session.relayed = some (.ok (out, t)) → out.published = []) := by
  have hpolicy (host : String) : s.policy.decrypts host = true ↔ Config.Decrypts lookup host := by
    unfold policy
    rw [hs.config_eq]
    exact Config.decrypts_iff hconfig
  refine ⟨fun target rest h => ?_, fun host hhost => ?_, fun hnone => ?_⟩
  · rw [decrypting_iff net i now turns h, hpolicy]
  · refine Policy.decrypts_eq_false_of_mem ?_
    unfold policy Config.policy
    rw [hs.config_eq, (Config.ofLookup_fields hconfig).1]
    exact hhost
  · refine session_undecrypted net i now turns fun target rest h => ?_
    rw [Bool.eq_false_iff, ne_eq, ← decrypting_iff net i now turns h]
    exact hnone target rest h

/-- A list with a passthrough host in it: that host is not decrypted, and another one is. -/
theorem session_policy_listed :
    let lookup : String → Option String := fun name =>
      if name = Config.interceptVar then some " *.test, , accounts.google.com" else none
    let listed : Net.Target := ⟨"tap.test", 443⟩
    let passed : Net.Target := ⟨"accounts.google.com", 443⟩
    let asking (line : String) : Client := { (default : Client) with plain := Utf8.encode line }
    let stock := Tap.Stream.interceptor false false
    let one := asking "CONNECT tap.test:443\n\n"
    let other := asking "CONNECT accounts.google.com:443\n\n"
    ∃ config s, Config.ofLookup lookup = .ok config ∧ Serves config s ∧
      Decrypting s stock one listed [Bytes.lf] (s.session .down stock one 0 []).1 ∧
      ¬ Decrypting s stock other passed [Bytes.lf] (s.session .down stock other 0 []).1 ∧
      (s.session .down stock other 0 []).2 = s := by
  intro lookup listed passed asking stock one other
  have hconfig : Config.ofLookup lookup =
      .ok { Config.default with intercept := ["*.test", "accounts.google.com"] } := by
    decide +kernel
  obtain ⟨s, v, hmade⟩ : ∃ s v, ofConfig { Config.default with
      intercept := ["*.test", "accounts.google.com"] } (.empty "certs") default = (.ok s, v) :=
    ⟨_, _, rfl⟩
  have hone : Tunnel.Requests one.closes one.plain listed [Bytes.lf] :=
    Tunnel.requests_iff.mpr ⟨Utf8.encode "CONNECT tap.test:443", by decide +kernel⟩
  have hother : Tunnel.Requests other.closes other.plain passed [Bytes.lf] :=
    Tunnel.requests_iff.mpr ⟨Utf8.encode "CONNECT accounts.google.com:443", by decide +kernel⟩
  have hdecrypts : Config.Decrypts lookup "tap.test" :=
    (Config.decrypts_iff hconfig).mp (by decide +kernel)
  have hpassed : ¬ Config.Decrypts lookup "accounts.google.com" := fun h => h.1 (by decide)
  have hs : Serves _ s := .made hmade
  have hsession := session_policy hconfig hs .down stock other 0 []
  have hnone := (hsession.1 passed _ hother).not.mpr hpassed
  refine ⟨_, s, hconfig, hs, ?_, hnone, ?_⟩
  · exact ((session_policy hconfig hs .down stock one 0 []).1 listed _ hone).mpr hdecrypts
  · refine (hsession.2.2 fun target rest h => ?_).1
    obtain ⟨rfl, rfl⟩ := hother.unique h
    exact hnone

end Server

end Wiretap
