import Wiretap.Cert.Registry
import Wiretap.Config
import Wiretap.Outbound.Connector
import Wiretap.Outbox
import Wiretap.Tunnel.Relay
import Wiretap.Tunnel.Request

/-!
# The server

From a client's request to an open tunnel. A request is granted if its line can
be read and names a target and, when the policy decrypts the target's host, a
certificate for the host is at hand. A granted request is answered with one
line, before anything else is sent. Then the headers are skipped, the client
of a decrypted tunnel makes its TLS handshake, and only then the origin is
dialed.
-/

namespace Wiretap

structure Server where
  config : Config
  vault : Cert.Vault
  registry : Cert.Registry
  outbox : Outbox
  deriving DecidableEq, Repr, Inhabited

namespace Server

/-- A server with the authority of the certificate directory. -/
def ofConfig (c : Config) (v : Cert.Vault) (o : Outbox) : Except Error Server × Cert.Vault :=
  match Cert.Registry.ofVault v with
  | (.error e, v) => (.error e, v)
  | (.ok registry, v) => (.ok ⟨c, v, registry, o⟩, v)

def policy (s : Server) : Policy := s.config.policy

/-- A granted request. -/
structure Grant where
  target : Net.Target
  /-- What is presented to the client of a decrypted tunnel. -/
  record : Option Cert.Record
  /-- What the client sent behind the line of its request. -/
  rest : Bytes
  deriving DecidableEq, Repr, Inhabited

/-- What is presented for a host, if its tunnels are decrypted. -/
def present (s : Server) (host : String) : Except Error (Option Cert.Record) × Server :=
  if s.policy.decrypts host then
    let (result, registry, vault) := s.registry.ensure s.vault host
    (result.map some, { s with registry, vault })
  else (.ok none, s)

/-- Grants or refuses what a client asks for. -/
def grant (s : Server) (closed : Bool) (stream : Bytes) : Except Error Grant × Server :=
  match Tunnel.readLine closed stream with
  | .error e => (.error e, s)
  | .ok (line, rest) =>
    match Tunnel.target line with
    | .error e => (.error e, s)
    | .ok target =>
      match s.present target.host with
      | (.error e, s) => (.error e, s)
      | (.ok record, s) => (.ok ⟨target, record, rest⟩, s)

/-- The protocols a client offers in its TLS handshake, if it makes one. -/
abbrev Hello := Option (List String)

/-- The client's TLS handshake in a decrypted tunnel: the protocol agreed on. -/
def welcome (record : Cert.Record) (rest : Bytes) (hello : Hello) : Except Error (Option String) :=
  let fail (text : String) : Except Error (Option String) :=
    .error (.tls ("client handshake for " ++ record.host ++ text))
  match rest, hello with
  | _ :: _, _ => fail ": received corrupt message"
  | [], none => fail " timed out"
  | [], some offers => (Outbound.agreed record.alpn offers).mapError fun e =>
      .tls ("client handshake for " ++ record.host ++ ": " ++ e.message)

/-- What came of a request. -/
structure Opening where
  /-- What the client is sent in plain text before the relay or TLS begins. -/
  reply : Bytes
  /-- With TLS towards the client: the protocol agreed on. -/
  alpn : Option (Option String)
  /-- The attempt to reach the origin, if one was made. -/
  dial : Option Outbound.Dial
  /-- The open connection to the origin with what the client sent ahead, or why there is none. -/
  result : Except Error (Outbound.Socket × Bytes)

/-- An opening whose origin has been dialed. -/
def Opening.ofDial (alpn : Option (Option String)) (d : Outbound.Dial) (ahead : Bytes) : Opening :=
  ⟨Tunnel.established, alpn, some d, d.result.map fun socket => (socket, ahead)⟩

/-- Carries a granted request out. -/
def carryOut (s : Server) (net : Net.Network) (closed : Bool) (hello : Hello) (g : Grant) : Opening :=
  let connect := Outbound.connect net s.config.proxy g.target.host g.target.port
  match Tunnel.skipHeaders closed g.rest, g.record with
  | none, _ =>
    ⟨Tunnel.established, none, none,
      .error (.invalidRequest "CONNECT headers not finished before the idle timeout")⟩
  | some rest, none => .ofDial none (connect false) rest
  | some rest, some record =>
    match welcome record rest hello with
    | .error e => ⟨Tunnel.established, none, none, .error e⟩
    | .ok alpn => .ofDial (some alpn) (connect true) []

/-- Answers a client that sends `stream` and then may make a TLS handshake. -/
def answer (s : Server) (net : Net.Network) (closed : Bool) (stream : Bytes) (hello : Hello) :
    Opening × Server :=
  match s.grant closed stream with
  | (.error e, s) => (⟨[], none, none, .error e⟩, s)
  | (.ok g, s) => (s.carryOut net closed hello g, s)

/-- The tunnel to a host whose origin has been reached. -/
def tunnel {σ : Type} (s : Server) (i : Interceptor σ) (host : String) (now : Tunnel.Moment) :
    Tunnel σ where
  clock := ⟨s.config.idle, now⟩
  relay :=
    if s.policy.decrypts host then .tapped (.fresh i host s.config.markers) else .blind

end Server

end Wiretap
