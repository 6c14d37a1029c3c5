import Wiretap.Outbound.Connector
import Wiretap.Proofs.Outbound.Grant

/-!
# Ways to an origin

A connection in plain text is made exactly if the origin is reached, straight or through a proxy
that opens a tunnel to it. What the connection brings is all that the origin sends: no byte that
belongs to the answer of the proxy, and none lost that follows it (`connect_eq_ok_iff`).
-/

namespace Wiretap

namespace Proxy

open Talk

/-- An answer with which a proxy opens the tunnel to a host, for a client that can ask for it. -/
def Opens (p : Proxy) (resolve : Resolver) (host : String) (answer : Bytes) : Prop :=
  p.Grants answer ∧
    match p.protocol with
    | .http => True
    | .socks5 remoteNames =>
      (∃ d, destination resolve remoteNames host = .ok d) ∧ Agrees p.credentials answer

theorem reads_establish (resolve : Resolver) (p : Proxy) (host : String) (port : Nat) :
    Reads (establish resolve p host port) fun _ => p.Opens resolve host := by
  unfold establish Opens Grants
  cases hp : p.protocol with
  | http =>
    refine (reads_http p.credentials host port).congr fun _ answer => ?_
    exact and_iff_left trivial
  | socks5 remoteNames =>
    simp only
    cases hd : destination resolve remoteNames host with
    | ok d =>
      refine (reads_destination hd p.credentials port).congr fun _ answer => ?_
      exact and_congr_right' (and_iff_right ⟨d, rfl⟩)
    | error e =>
      unfold establishSocks5
      rw [hd]
      refine ((reads_choice p.credentials).andThen fun _ _ _ => reads_fail fun _ _ => id).congr ?_
      simp

end Proxy

namespace Outbound

/-- A way to an origin that sends `incoming`: it is reached, or a proxy is that opens a tunnel to
it and then sends what the origin does. -/
inductive Leads (net : Net.Network) (host : String) (port : Nat) : Option Proxy → Bytes → Prop
  | straight {peer : Net.Peer} (reached : net.peer host port = .ok peer) :
      Leads net host port none peer.sends
  | proxied {p : Proxy} {peer : Net.Peer} {answer incoming : Bytes}
      (reached : net.peer p.host p.port = .ok peer)
      (opens : p.Opens (resolver net) host answer) (sends : peer.sends = answer ++ incoming) :
      Leads net host port (some p) incoming

variable {net : Net.Network} {proxy : Option Proxy} {host : String} {port : Nat}

theorem exists_path_iff {incoming : Bytes} :
    (∃ peer, (path net proxy host port).1 = .ok (peer, incoming)) ↔
      Leads net host port proxy incoming := by
  constructor
  · rintro ⟨peer, h⟩
    unfold path at h
    cases proxy with
    | none =>
      cases hreached : net.peer host port with
      | error e => rw [hreached] at h; cases h
      | ok peer => rw [hreached] at h; cases h; exact .straight hreached
    | some p =>
      simp only at h
      split at h
      · cases h
      · rename_i peer' hreached
        split at h
        · rename_i wire hestablish
          cases h
          obtain ⟨answer, hopens, hsends⟩ :=
            (p.reads_establish (resolver net) host port _ () _).mp ⟨wire.sent, hestablish⟩
          exact .proxied hreached hopens hsends
        · cases h
  · rintro (hreached | ⟨hreached, hopens, hsends⟩)
    · exact ⟨_, by simp only [path, hreached]; rfl⟩
    · rename_i p peer answer
      obtain ⟨sent, hestablish⟩ :=
        (p.reads_establish (resolver net) host port ⟨peer.sends, []⟩ () incoming).mpr
          ⟨answer, hopens, hsends⟩
      exact ⟨peer, by simp only [path, hreached, hestablish]⟩

/-- A connection in plain text is made if there is a way, and brings what the origin sends. -/
theorem connect_eq_ok_iff {socket : Socket} :
    (connect net proxy host port false).result = .ok socket ↔
      ∃ incoming, Leads net host port proxy incoming ∧
        socket = ⟨Net.hostPort host port, none, incoming⟩ := by
  simp only [← exists_path_iff]
  unfold connect dial
  obtain ⟨way, sent⟩ := path net proxy host port
  cases way with
  | error e => simp [Except.mapError]
  | ok way =>
    obtain ⟨peer, incoming⟩ := way
    simp [Except.mapError, eq_comm]

end Outbound

end Wiretap
