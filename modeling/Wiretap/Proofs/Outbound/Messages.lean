import Mathlib.Data.List.Basic
import Wiretap.Outbound.Handshake
import Wiretap.Proofs.Text.Encoded

/-!
# What a SOCKS5 server is told

A server reads a greeting with methods to choose from, perhaps a user with a password, and
perhaps a request with a destination and a port (`methods?`, `password?`, `request?`). Whatever
the server answers, it is sent these messages in this order, each of them only when its turn has
come, and reads out of them what the client was given (`establish_messages`).
-/

namespace Wiretap.Net

/-! ## Octets of a literal -/

/-- As many octets as the kind of the address has. -/
def Address.IsSized : Address → Prop
  | v4 octets => octets.length = 4
  | v6 octets => octets.length = 16

theorem length_of_mapM {α β : Type} {f : α → Option β} {s : List α} {t : List β}
    (h : s.mapM f = some t) : t.length = s.length := by
  induction s generalizing t with
  | nil =>
    cases h
    rfl
  | cons a s ih =>
    rw [List.mapM_cons] at h
    obtain ⟨b, -, h⟩ := Option.bind_eq_some_iff.mp h
    obtain ⟨t', ht', h⟩ := Option.bind_eq_some_iff.mp h
    cases h
    rw [List.length_cons, List.length_cons, ih ht']

theorem length_v4? {cs : List Char} {octets : Bytes} (h : v4? cs = some octets) :
    octets.length = 4 := by
  unfold v4? at h
  split at h
  · exact length_of_mapM h
  · cases h

theorem length_v6? {cs : List Char} {octets : Bytes} (h : v6? cs = some octets) :
    octets.length = 16 := by
  unfold v6? at h
  split at h
  · split at h
    · split at h
      · rename_i hlen
        cases h
        exact hlen
      · cases h
    · cases h
  · split at h
    · split at h
      · -- the zeros fill what the two sides leave
        cases h
        simp only [List.length_append, List.length_replicate]
        omega
      · cases h
    · cases h

theorem isSized_of_parse? {host : String} {a : Address} (h : Address.parse? host = some a) :
    a.IsSized := by
  unfold Address.parse? at h
  split at h
  · rename_i octets hv4
    cases h
    exact length_v4? hv4
  · obtain ⟨octets, hv6, rfl⟩ := Option.map_eq_some_iff.mp h
    exact length_v6? hv6

end Wiretap.Net

namespace Wiretap.Proxy

open Talk

/-! ## Reading the messages -/

/-- Of a greeting: the methods to choose from. -/
def methods? : Bytes → Option Bytes
  | 5 :: n :: methods => if methods.length = n.toNat then some methods else none
  | _ => none

/-- The bytes that the first one counts, and what follows them. -/
def counted? : Bytes → Option (Bytes × Bytes)
  | n :: s => if n.toNat ≤ s.length then some (s.take n.toNat, s.drop n.toNat) else none
  | [] => none

/-- Of a packet with nothing behind it: the user and the password. -/
def password? : Bytes → Option (Bytes × Bytes)
  | 1 :: s => do
    let (user, s) ← counted? s
    let (password, s) ← counted? s
    if s.isEmpty then some (user, password) else none
  | _ => none

/-- A destination behind the byte for its kind, and what follows it. -/
def destination? : Bytes → Option (Destination × Bytes)
  | 1 :: s => if 4 ≤ s.length then some (.address (.v4 (s.take 4)), s.drop 4) else none
  | 4 :: s => if 16 ≤ s.length then some (.address (.v6 (s.take 16)), s.drop 16) else none
  | 3 :: s => (counted? s).map fun (host, s) => (.name host, s)
  | _ => none

/-- A port in two bytes, the higher one first. -/
def port? : Bytes → Option Nat
  | [high, low] => some (high.toNat * 256 + low.toNat)
  | _ => none

/-- Of a request with nothing behind it: the destination and the port. -/
def request? : Bytes → Option (Destination × Nat)
  | 5 :: 1 :: 0 :: s => do
    let (d, s) ← destination? s
    let port ← port? s
    some (d, port)
  | _ => none

/-- Small enough for a byte that counts it. -/
def Destination.Fits : Destination → Prop
  | .address a => a.IsSized
  | .name host => host.length ≤ 255

theorem counted?_append {s : Bytes} (h : s.length ≤ 255) (rest : Bytes) :
    counted? (s.length.toUInt8 :: (s ++ rest)) = some (s, rest) := by
  have hcount : s.length.toUInt8.toNat = s.length := Utf8.toNat_toUInt8 (by omega)
  unfold counted?
  simp only [hcount]
  rw [if_pos (by simp), List.take_left, List.drop_left]

theorem methods?_greeting (credentials : Option Credentials) :
    methods? (greeting credentials) = some (if credentials.isSome then [0, 2] else [0]) := by
  cases credentials <;> rfl

/-- User and password fit each into what a byte counts. -/
def Short (c : Credentials) : Prop :=
  byteLength c.user ≤ 255 ∧ byteLength (c.password.getD "") ≤ 255

theorem password?_passwordPacket {c : Credentials} (h : Short c) :
    password? (passwordPacket c) =
      some (Utf8.encode c.user, Utf8.encode (c.password.getD "")) := by
  obtain ⟨huser, hpassword⟩ := h
  have hsecond := counted?_append hpassword []
  rw [List.append_nil] at hsecond
  simp only [passwordPacket, password?, List.cons_append, counted?_append huser, hsecond,
    Option.bind_eq_bind, Option.bind_some, List.isEmpty_nil, if_true]

theorem port?_portBytes {port : Nat} (h : port < 65536) : port? (portBytes port) = some port := by
  have hhigh : (port / 256).toUInt8.toNat = port / 256 := Utf8.toNat_toUInt8 (by omega)
  have hlow : (port % 256).toUInt8.toNat = port % 256 := Utf8.toNat_toUInt8 (by omega)
  simp only [portBytes, port?, hhigh, hlow, Option.some.injEq]
  omega

theorem destination?_v4 {octets : Bytes} (h : octets.length = 4) (rest : Bytes) :
    destination? (1 :: (octets ++ rest)) = some (.address (.v4 octets), rest) := by
  unfold destination?
  simp only
  rw [if_pos (by rw [List.length_append]; omega), ← h, List.take_left, List.drop_left]

theorem destination?_v6 {octets : Bytes} (h : octets.length = 16) (rest : Bytes) :
    destination? (4 :: (octets ++ rest)) = some (.address (.v6 octets), rest) := by
  unfold destination?
  simp only
  rw [if_pos (by rw [List.length_append]; omega), ← h, List.take_left, List.drop_left]

theorem destination?_name {host : Bytes} (h : host.length ≤ 255) (rest : Bytes) :
    destination? (3 :: host.length.toUInt8 :: (host ++ rest)) = some (.name host, rest) := by
  unfold destination?
  simp only [counted?_append h, Option.map_some]

theorem request?_connectPacket {d : Destination} (hd : d.Fits) {port : Nat} (h : port < 65536) :
    request? (connectPacket d port) = some (d, port) := by
  have hread {s : Bytes} (hs : destination? s = some (d, portBytes port)) :
      request? (5 :: 1 :: 0 :: s) = some (d, port) := by
    simp only [request?, hs, Option.bind_eq_bind, Option.bind_some, port?_portBytes h]
  unfold connectPacket
  match d, hd with
  | .address (.v4 _), hd => exact hread (destination?_v4 hd _)
  | .address (.v6 _), hd => exact hread (destination?_v6 hd _)
  | .name _, hd => exact hread (destination?_name hd _)

/-! ## Sending them -/

/-- What a talk sends to a peer of which these bytes come, and whether it succeeds. -/
def Tells (t : Talk Unit) (account : Bytes → Bytes → Bool → Prop) : Prop :=
  ∀ w, ∃ said, (t w).2.sent = w.sent ++ said ∧ account w.incoming said (t w).1.isOk

section

variable {account : Bytes → Bytes → Bool → Prop}

theorem Tells.mono {t : Talk Unit} {account' : Bytes → Bytes → Bool → Prop} (ht : Tells t account')
    (h : ∀ incoming said ok, account' incoming said ok → account incoming said ok) :
    Tells t account := fun w =>
  let ⟨said, hsent, haccount⟩ := ht w
  ⟨said, hsent, h _ _ _ haccount⟩

theorem tells_fail {e : Error} (h : ∀ incoming, account incoming [] false) :
    Tells (fail e) account := fun w => ⟨[], (List.append_nil w.sent).symm, h w.incoming⟩

theorem tells_done (h : ∀ incoming, account incoming [] true) : Tells (done ()) account :=
  fun w => ⟨[], (List.append_nil w.sent).symm, h w.incoming⟩

theorem tells_send {s : Bytes} {f : Unit → Talk Unit}
    (h : Tells (f ()) fun incoming said ok => account incoming (s ++ said) ok) :
    Tells ((send s).andThen f) account := by
  intro w
  obtain ⟨said, hsent, haccount⟩ := h { w with sent := w.sent ++ s }
  exact ⟨s ++ said, by rw [← List.append_assoc]; exact hsent, haccount⟩

/-- Too few bytes end a talk, and nothing more is sent. -/
theorem tells_receive {n : Nat} {f : Bytes → Talk Unit}
    (hshort : ∀ incoming : Bytes, incoming.length < n → account incoming [] false)
    (hf : ∀ first, first.length = n →
      Tells (f first) fun rest said ok => account (first ++ rest) said ok) :
    Tells ((receive n).andThen f) account := by
  intro w
  unfold Talk.andThen receive
  by_cases hn : n ≤ w.incoming.length
  · obtain ⟨said, hsent, haccount⟩ := hf (w.incoming.take n) (List.length_take_of_le hn)
      { w with incoming := w.incoming.drop n }
    rw [List.take_append_drop] at haccount
    rw [if_pos hn]
    exact ⟨said, hsent, haccount⟩
  · rw [if_neg hn]
    exact ⟨[], (List.append_nil w.sent).symm, hshort w.incoming (Nat.lt_of_not_le hn)⟩

theorem Tells.andThen {t : Talk Unit} {f : Unit → Talk Unit}
    {first second : Bytes → Bytes → Bool → Prop} (ht : Tells t first) (hf : Tells (f ()) second)
    (hfail : ∀ incoming said, first incoming said false → account incoming said false)
    (hgo : ∀ incoming said rest more ok, first incoming said true → second rest more ok →
      account incoming (said ++ more) ok) :
    Tells (t.andThen f) account := by
  intro w
  obtain ⟨said, hsent, hfirst⟩ := ht w
  unfold Talk.andThen
  cases ht : t w with
  | mk result w' =>
    rw [ht] at hsent hfirst
    cases result with
    | ok =>
      obtain ⟨more, hmore, hsecond⟩ := hf w'
      refine ⟨said ++ more, ?_, hgo _ _ _ _ _ hfirst hsecond⟩
      rw [← List.append_assoc, ← hsent]
      exact hmore
    | error e => exact ⟨said, hsent, hfail _ _ hfirst⟩

end

/-- Nothing is sent while the reply is read. -/
theorem tells_receiveReply : Tells receiveReply fun _ said _ => said = [] := by
  have hskip (n : Nat) : Tells ((receive n).andThen fun _ => done ()) fun _ said _ => said = [] :=
    tells_receive (fun _ _ => rfl) fun _ _ => tells_done fun _ => rfl
  refine tells_receive (fun _ _ => rfl) fun reply _ => ?_
  split
  · split
    · exact tells_fail fun _ => rfl
    split
    · exact tells_fail fun _ => rfl
    split
    · exact hskip 6
    split
    · exact hskip 18
    split
    · exact tells_receive (fun _ _ => rfl) fun length _ => hskip _
    · exact tells_fail fun _ => rfl
  · exact tells_fail fun _ => rfl

/-! ## Negotiating -/

/-- The server does without a password. -/
def TakesNone (incoming : Bytes) : Prop := [5, 0] <+: incoming

/-- The server wants a password. -/
def WantsPassword (incoming : Bytes) : Prop := [5, 2] <+: incoming

/-- The server wants a password and is content with the one it gets. -/
def TakesPassword (incoming : Bytes) : Prop := ∃ version, [5, 2, version, 0] <+: incoming

/-- What a negotiation comes to: the packet that is sent behind the greeting, if any is, and
whether the client may go on. -/
inductive Negotiation (credentials : Option Credentials) (incoming : Bytes) :
    Option Bytes → Bool → Prop
  | free (takes : TakesNone incoming) : Negotiation credentials incoming none true
  | accepted {c : Credentials} (known : c ∈ credentials) (short : Short c)
      (takes : TakesPassword incoming) :
      Negotiation credentials incoming (some (passwordPacket c)) true
  | rejected {c : Credentials} (known : c ∈ credentials) (short : Short c)
      (wants : WantsPassword incoming) (refuses : ¬ TakesPassword incoming) :
      Negotiation credentials incoming (some (passwordPacket c)) false
  | refused (locked : ¬ TakesNone incoming)
      (unable : WantsPassword incoming → ∀ c ∈ credentials, ¬ Short c) :
      Negotiation credentials incoming none false

theorem takesNone_cons {version method : UInt8} {s : Bytes} :
    TakesNone (version :: method :: s) ↔ version = 5 ∧ method = 0 := by
  simp [TakesNone, List.cons_prefix_cons, eq_comm]

theorem wantsPassword_cons {version method : UInt8} {s : Bytes} :
    WantsPassword (version :: method :: s) ↔ version = 5 ∧ method = 2 := by
  simp [WantsPassword, List.cons_prefix_cons, eq_comm]

theorem takesPassword_cons {version method : UInt8} {s : Bytes} :
    TakesPassword (version :: method :: s) ↔
      version = 5 ∧ method = 2 ∧ ∃ inner, [inner, 0] <+: s := by
  simp [TakesPassword, List.cons_prefix_cons, eq_comm]

/-- A password is sent whole, and it will do if the second byte of the answer is zero. -/
theorem tells_authenticate {c : Credentials} (h : Short c) :
    Tells (authenticate c) fun incoming said ok =>
      said = passwordPacket c ∧ (ok = true ↔ ∃ inner, [inner, 0] <+: incoming) := by
  obtain ⟨huser, hpassword⟩ := h
  unfold authenticate
  rw [if_neg (by omega)]
  refine tells_send (tells_receive ?_ ?_)
  · intro incoming hlen
    refine ⟨List.append_nil _, nofun, ?_⟩
    rintro ⟨inner, hprefix⟩
    exact absurd hprefix.length_le (Nat.not_le_of_lt hlen)
  · intro answer hlen
    obtain ⟨inner, status, rfl⟩ := List.length_eq_two.mp hlen
    split
    · rename_i heq
      cases heq
      exact tells_done fun rest => ⟨List.append_nil _, fun _ => ⟨inner, rest, rfl⟩, fun _ => rfl⟩
    · rename_i hne
      refine tells_fail fun rest => ⟨List.append_nil _, nofun, ?_⟩
      rintro ⟨inner', rest', heq⟩
      cases heq
      exact absurd rfl (hne inner)

/-- What a negotiation sends is the greeting and what it comes to. -/
theorem tells_negotiate (credentials : Option Credentials) :
    Tells (negotiate credentials) fun incoming said ok =>
      ∃ password, Negotiation credentials incoming password ok ∧
        said = greeting credentials ++ password.getD [] := by
  refine tells_send (tells_receive ?_ ?_)
  · intro incoming hlen
    refine ⟨none, .refused ?_ ?_, rfl⟩
    · exact fun h => absurd h.length_le (Nat.not_le_of_lt hlen)
    · exact fun h => absurd h.length_le (Nat.not_le_of_lt hlen)
  · intro answer hlen
    obtain ⟨version, method, rfl⟩ := List.length_eq_two.mp hlen
    split
    · rename_i heq
      cases heq
      exact tells_done fun rest => ⟨none, .free (takesNone_cons.mpr ⟨rfl, rfl⟩), rfl⟩
    · rename_i c heq
      cases heq
      by_cases hshort : Short c
      · refine (tells_authenticate hshort).mono ?_
        rintro rest said ok ⟨rfl, hok⟩
        refine ⟨some (passwordPacket c), ?_, rfl⟩
        cases ok with
        | true =>
          exact .accepted rfl hshort (takesPassword_cons.mpr ⟨rfl, rfl, hok.mp rfl⟩)
        | false =>
          refine .rejected rfl hshort (wantsPassword_cons.mpr ⟨rfl, rfl⟩) fun htakes => ?_
          exact Bool.false_ne_true (hok.mpr (takesPassword_cons.mp htakes).2.2)
      · unfold authenticate
        rw [if_pos (by unfold Short at hshort; omega)]
        refine tells_fail fun rest => ⟨none, .refused ?_ ?_, rfl⟩
        · exact fun h => absurd (takesNone_cons.mp h).2 (by decide)
        · rintro - c' ⟨⟩
          exact hshort
    · rename_i hnone heq hpassword
      cases heq
      refine tells_fail fun rest => ⟨none, .refused ?_ ?_, rfl⟩
      · exact fun h => hnone (by rw [(takesNone_cons.mp h).2])
      · rintro h c rfl
        exact (hpassword c rfl (by rw [(wantsPassword_cons.mp h).2])).elim
    · rename_i hversion _
      refine tells_fail fun rest => ⟨none, .refused ?_ ?_, rfl⟩
      · exact fun h => hversion [method] (by rw [(takesNone_cons.mp h).1])
      · exact fun h => absurd (by rw [(wantsPassword_cons.mp h).1]) (hversion [method])

theorem Negotiation.password_iff {credentials : Option Credentials} {incoming : Bytes}
    {password : Option Bytes} {ok : Bool} (h : Negotiation credentials incoming password ok) :
    password.isSome ↔ WantsPassword incoming ∧ ∃ c ∈ credentials, Short c := by
  cases h with
  | free takes =>
    refine ⟨nofun, fun ⟨wants, _⟩ => ?_⟩
    obtain ⟨rest, rfl⟩ := takes
    exact absurd (wantsPassword_cons.mp wants).2 (by decide)
  | accepted known short takes =>
    obtain ⟨version, takes⟩ := takes
    exact ⟨fun _ => ⟨List.IsPrefix.trans ⟨[version, 0], rfl⟩ takes, _, known, short⟩, fun _ => rfl⟩
  | rejected known short wants refuses => exact ⟨fun _ => ⟨wants, _, known, short⟩, fun _ => rfl⟩
  | refused locked unable =>
    exact ⟨nofun, fun ⟨wants, c, known, short⟩ => absurd short (unable wants c known)⟩

theorem Negotiation.password_eq {credentials : Option Credentials} {incoming packet : Bytes}
    {ok : Bool} (h : Negotiation credentials incoming (some packet) ok) :
    ∃ c ∈ credentials,
      password? packet = some (Utf8.encode c.user, Utf8.encode (c.password.getD "")) := by
  cases h with
  | accepted known short takes => exact ⟨_, known, password?_passwordPacket short⟩
  | rejected known short wants refuses => exact ⟨_, known, password?_passwordPacket short⟩

theorem Negotiation.ok_iff {credentials : Option Credentials} {incoming : Bytes}
    {password : Option Bytes} {ok : Bool} (h : Negotiation credentials incoming password ok) :
    ok = true ↔ TakesNone incoming ∨ password.isSome ∧ TakesPassword incoming := by
  cases h with
  | free takes => exact ⟨fun _ => .inl takes, fun _ => rfl⟩
  | accepted known short takes => exact ⟨fun _ => .inr ⟨rfl, takes⟩, fun _ => rfl⟩
  | rejected known short wants refuses =>
    refine ⟨nofun, ?_⟩
    rintro (⟨rest, rfl⟩ | ⟨-, takes⟩)
    · exact absurd (wantsPassword_cons.mp wants).2 (by decide)
    · exact absurd takes refuses
  | refused locked unable =>
    refine ⟨nofun, ?_⟩
    rintro (takes | ⟨h, -⟩)
    · exact absurd takes locked
    · cases h

/-- What is asked for of a host, if anything is. -/
structure Asks (host : String) (port : Nat) (request : Option Bytes) : Prop where
  isSome_iff : request.isSome ↔ (Net.Address.parse? host).isSome ∨ byteLength host ≤ 255
  address : ∀ packet ∈ request, ∀ a, Net.Address.parse? host = some a →
    request? packet = some (.address a, port)
  name : ∀ packet ∈ request, Net.Address.parse? host = none →
    request? packet = some (.name (Utf8.encode host), port)

/-- A host that need not be looked up is asked for as it is. -/
theorem asks_destination (resolve : Resolver) {remoteNames : Bool} {host : String}
    (h : (Net.Address.parse? host).isSome ∨ remoteNames = true) {port : Nat}
    (hport : port < 65536) :
    Asks host port
      ((destination resolve remoteNames host).toOption.map fun d => connectPacket d port) := by
  unfold destination
  cases ha : Net.Address.parse? host with
  | some a =>
    have hread : request? (connectPacket (.address a) port) = some (.address a, port) :=
      request?_connectPacket (d := .address a) (Net.isSized_of_parse? ha) hport
    refine ⟨by simp [ha, Except.toOption], ?_, ?_⟩
    · rintro packet ⟨⟩ a' ha'
      cases ha.symm.trans ha'
      exact hread
    · rintro packet - hnone
      cases ha.symm.trans hnone
  | none =>
    rw [ha] at h
    simp only [h.resolve_left Bool.false_ne_true, if_true]
    by_cases hlong : 255 < byteLength host
    · rw [if_pos hlong]
      refine ⟨?_, nofun, nofun⟩
      simp only [ha, Except.toOption, Option.map_none, Option.isSome_none, Bool.false_eq_true,
        false_or, false_iff]
      omega
    · rw [if_neg hlong]
      have hread : request? (connectPacket (.name (Utf8.encode host)) port) =
          some (.name (Utf8.encode host), port) :=
        request?_connectPacket (d := .name _) (Nat.le_of_not_lt hlong) hport
      refine ⟨?_, ?_, ?_⟩
      · simp only [ha, Except.toOption, Option.map_some, Option.isSome_some, Option.isSome_none,
          Bool.false_eq_true, false_or, true_iff]
        omega
      · rintro packet - a ha'
        cases ha.symm.trans ha'
      · rintro packet ⟨⟩ -
        exact hread

theorem tells_request (resolve : Resolver) (remoteNames : Bool) (host : String) (port : Nat) :
    Tells (match destination resolve remoteNames host with
      | .error e => fail e
      | .ok d => (send (connectPacket d port)).andThen fun _ => receiveReply) fun _ said ok =>
      let request :=
        (destination resolve remoteNames host).toOption.map fun d => connectPacket d port
      said = request.getD [] ∧ (request = none → ok = false) := by
  cases destination resolve remoteNames host with
  | error e => exact tells_fail fun _ => ⟨rfl, fun _ => rfl⟩
  | ok d =>
    refine tells_send (tells_receiveReply.mono ?_)
    rintro _ _ _ rfl
    exact ⟨List.append_nil _, nofun⟩

/-! ## The whole handshake -/

/-- The messages to a server, as far as a client gets. -/
structure Messages where
  greeting : Bytes
  password : Option Bytes
  request : Option Bytes

def Messages.bytes (m : Messages) : Bytes :=
  m.greeting ++ m.password.getD [] ++ m.request.getD []

/-- The messages that a server is sent of which these bytes come, and what it reads in them. -/
structure Messages.Proper (m : Messages) (credentials : Option Credentials) (host : String)
    (port : Nat) (incoming : Bytes) : Prop where
  /-- A password is offered if there is one. -/
  methods : methods? m.greeting = some (if credentials.isSome then [0, 2] else [0])
  /-- It is sent if the server wants it, unless it has too many bytes to count. -/
  password_iff : m.password.isSome ↔ WantsPassword incoming ∧ ∃ c ∈ credentials, Short c
  password_eq : ∀ packet ∈ m.password, ∃ c ∈ credentials,
    password? packet = some (Utf8.encode c.user, Utf8.encode (c.password.getD ""))
  /-- The request is sent if the server lets the client in, unless its name has too many bytes. -/
  request_iff : m.request.isSome ↔
    (TakesNone incoming ∨ m.password.isSome ∧ TakesPassword incoming) ∧
      ((Net.Address.parse? host).isSome ∨ byteLength host ≤ 255)
  request_address : ∀ packet ∈ m.request, ∀ a, Net.Address.parse? host = some a →
    request? packet = some (.address a, port)
  request_name : ∀ packet ∈ m.request, Net.Address.parse? host = none →
    request? packet = some (.name (Utf8.encode host), port)

theorem Negotiation.proper_stopped {credentials : Option Credentials} {incoming : Bytes}
    {password : Option Bytes} (h : Negotiation credentials incoming password false)
    (host : String) (port : Nat) :
    Messages.Proper ⟨greeting credentials, password, none⟩ credentials host port incoming where
  methods := methods?_greeting credentials
  password_iff := h.password_iff
  password_eq := by
    rintro packet ⟨⟩
    exact h.password_eq
  request_iff := ⟨nofun, fun ⟨takes, _⟩ => absurd (h.ok_iff.mpr takes) Bool.false_ne_true⟩
  request_address := nofun
  request_name := nofun

theorem Negotiation.proper {credentials : Option Credentials} {incoming : Bytes}
    {password request : Option Bytes} (h : Negotiation credentials incoming password true)
    {host : String} {port : Nat} (hasks : Asks host port request) :
    Messages.Proper ⟨greeting credentials, password, request⟩ credentials host port incoming where
  methods := methods?_greeting credentials
  password_iff := h.password_iff
  password_eq := by
    rintro packet ⟨⟩
    exact h.password_eq
  request_iff := by rw [hasks.isSome_iff, and_iff_right (h.ok_iff.mp rfl)]
  request_address := hasks.address
  request_name := hasks.name

theorem tells_socks5 (resolve : Resolver) (credentials : Option Credentials) {remoteNames : Bool}
    {host : String} (h : (Net.Address.parse? host).isSome ∨ remoteNames = true) {port : Nat}
    (hport : port < 65536) :
    Tells (establishSocks5 resolve credentials remoteNames host port) fun incoming said ok =>
      ∃ m : Messages, m.Proper credentials host port incoming ∧ said = m.bytes ∧
        (m.request = none → ok = false) := by
  unfold establishSocks5
  refine (tells_negotiate credentials).andThen (tells_request resolve remoteNames host port) ?_ ?_
  · rintro incoming said ⟨password, hn, rfl⟩
    refine ⟨_, hn.proper_stopped host port, ?_, fun _ => rfl⟩
    exact (List.append_nil _).symm
  · rintro incoming said rest more ok ⟨password, hn, rfl⟩ ⟨rfl, hnone⟩
    exact ⟨_, hn.proper (asks_destination resolve h hport), rfl, hnone⟩

/-- Whatever a server sends: it is sent a greeting, then a password if it wants one and there is
one that fits, then a request if it lets the client in and the name fits, and nothing else. It
reads in them what the client was given, and without a request the handshake fails. -/
theorem establish_messages (resolve : Resolver) {p : Proxy} {remoteNames : Bool}
    (hp : p.protocol = .socks5 remoteNames) {host : String}
    (hhost : (Net.Address.parse? host).isSome ∨ remoteNames = true) {port : Nat}
    (hport : port < 65536) (w : Wire) :
    ∃ m : Messages, m.Proper p.credentials host port w.incoming ∧
      (establish resolve p host port w).2.sent = w.sent ++ m.bytes ∧
      (m.request = none → ∃ e, (establish resolve p host port w).1 = .error e) := by
  have heq : establish resolve p host port =
      establishSocks5 resolve p.credentials remoteNames host port := by
    unfold establish
    rw [hp]
  obtain ⟨said, hsent, m, hm, rfl, hnone⟩ := tells_socks5 resolve p.credentials hhost hport w
  rw [heq]
  refine ⟨m, hm, hsent, fun hrequest => ?_⟩
  have hok := hnone hrequest
  cases hresult : (establishSocks5 resolve p.credentials remoteNames host port w).1 with
  | ok => rw [hresult] at hok; cases hok
  | error e => exact ⟨e, rfl⟩

/-- A password that is accepted, and a name: all three messages. -/
theorem establish_messages_password :
    let resolve : Resolver := fun _ => .error earlyEof
    let p : Proxy := ⟨default, "localhost", 1080, .socks5 true, some ⟨"user", some "word"⟩⟩
    let w : Wire := ⟨[5, 2, 1, 0], []⟩
    p.protocol = .socks5 true ∧
    ((Net.Address.parse? "tap.test").isSome ∨ true = true) ∧ 443 < 65536 ∧
    ∃ m : Messages, m.Proper p.credentials "tap.test" 443 [5, 2, 1, 0] ∧
      (establish resolve p "tap.test" 443 w).2.sent = m.bytes ∧
      m.password.isSome ∧ m.request.isSome := by
  intro resolve p w
  obtain ⟨m, hm, hsent, -⟩ :=
    @establish_messages resolve p true rfl "tap.test" (.inr rfl) 443 (by decide) w
  have hshort : Short ⟨"user", some "word"⟩ := ⟨by decide +kernel, by decide +kernel⟩
  have hpassword : m.password.isSome :=
    hm.password_iff.mpr ⟨⟨[1, 0], rfl⟩, _, rfl, hshort⟩
  refine ⟨rfl, .inr rfl, by decide, m, hm, hsent, hpassword, hm.request_iff.mpr ⟨?_, .inr ?_⟩⟩
  · exact .inr ⟨hpassword, 1, [], rfl⟩
  · decide +kernel

end Wiretap.Proxy
