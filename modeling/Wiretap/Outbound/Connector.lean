import Wiretap.Outbound.Handshake
import Wiretap.Outbound.Secure

/-!
# Connecting to the origin

A connection goes straight to the origin, or to the proxy that is asked for a
tunnel to it, and then has a TLS handshake if the tunnel is decrypted. Whatever
fails on the way fails the connection. A wait for someone who stays connected
and sends nothing ends with the time limit.
-/

namespace Wiretap.Outbound

/-- A connection to an origin. -/
structure Socket where
  /-- Host and port it was made for. -/
  target : String
  /-- With TLS: the protocol agreed on, if any. -/
  secure : Option (Option String)
  /-- What the origin sends. -/
  incoming : Bytes
  deriving DecidableEq, Repr, Inhabited

/-- What came of an attempt to connect. -/
structure Dial where
  result : Except Error Socket
  /-- What was sent to the proxy. -/
  sent : Bytes

def timedOut : Error := .other "timed out"

/-- The first address of a name, for a proxy that resolves none. -/
def resolver (net : Net.Network) : Proxy.Resolver := fun host =>
  match net.addresses host with
  | .error e => .error e
  | .ok [] => .error (.connection ("no address for " ++ host))
  | .ok (a :: _) => .ok a

/-- An error met while waiting for a peer: one that stays connected never ends its stream. -/
def whileWaiting (peer : Net.Peer) : Error → Error
  | .io .unexpectedEof text => if peer.stays then timedOut else .io .unexpectedEof text
  | e => e

/-- The way to the origin: who is at its end, what it sends, and what the proxy was sent. -/
def path (net : Net.Network) (proxy : Option Proxy) (host : String) (port : Nat) :
    Except Error (Net.Peer × Bytes) × Bytes :=
  match proxy with
  | none => ((net.peer host port).map fun peer => (peer, peer.sends), [])
  | some p =>
    match net.peer p.host p.port with
    | .error e => (.error e, [])
    | .ok peer =>
      match p.establish (resolver net) host port ⟨peer.sends, []⟩ with
      | (.ok (), wire) => (.ok (peer, wire.incoming), wire.sent)
      | (.error e, wire) => (.error (whileWaiting peer e), wire.sent)

/-- TLS over a way to the origin, if it is wanted: the protocol agreed on. -/
def secure (peer : Net.Peer) (host : String) : Except Error (Option String) :=
  match serverName host with
  | .error e => .error e
  | .ok name =>
    match peer.handshaker with
    | none => .error timedOut
    | some h => handshake h name

def dial (net : Net.Network) (proxy : Option Proxy) (host : String) (port : Nat) (tls : Bool) :
    Dial :=
  let (way, sent) := path net proxy host port
  let socket := Net.hostPort host port
  match way with
  | .error e => ⟨.error e, sent⟩
  | .ok (peer, incoming) =>
    if tls then ⟨(secure peer host).map fun p => ⟨socket, some p, incoming⟩, sent⟩
    else ⟨.ok ⟨socket, none, incoming⟩, sent⟩

def failure (host : String) (port : Nat) (e : Error) : Error :=
  .connection (host ++ ":" ++ String.ofList (Number.decimal port) ++ ": " ++ e.message)

/-- Connects to a host, with TLS if the tunnel is decrypted. -/
def connect (net : Net.Network) (proxy : Option Proxy) (host : String) (port : Nat) (tls : Bool) :
    Dial :=
  let d := dial net proxy host port tls
  { d with result := d.result.mapError (failure host port) }

end Wiretap.Outbound
