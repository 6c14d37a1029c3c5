import Wiretap.Error
import Wiretap.Net.Address

/-!
# The network

What can be reached: the addresses of a name, and who answers at an address.
Whoever answers is known by all that it will send, and by how it takes part in a
TLS handshake, if it does.
-/

namespace Wiretap.Net

/-- The server's side of a TLS handshake. -/
structure Handshaker where
  /-- Its certificate is signed by a root that the other side knows. -/
  trusted : Bool
  /-- The name in its certificate. -/
  name : String
  /-- The protocols it accepts, the best first. -/
  alpn : List String
  deriving DecidableEq, Repr, Inhabited

structure Peer where
  /-- Everything it sends, apart from handshakes of TLS. -/
  sends : Bytes
  /-- It stays connected when it has nothing more to send. -/
  stays : Bool
  handshaker : Option Handshaker
  deriving DecidableEq, Repr, Inhabited

structure Network where
  addresses : String → Except Error (List Address)
  reach : Address → Nat → Except Error Peer

namespace Network

def isUnreachable : Error := .os .networkUnreachable 101 "Network is unreachable"

def unknownName : Error :=
  .io .uncategorized "failed to lookup address information: Name or service not known"

/-- The address at which a place finds itself. -/
def loopback : Address := .v4 [127, 0, 0, 1]

/-- The addresses of a name that is a literal, a numeric form or `localhost`, without asking
anyone. -/
def localAddresses (name : String) : Except Error (List Address) :=
  match Address.parse? name with
  | some a => .ok [a]
  | none =>
    match numeric? name with
    | some a => .ok [a]
    | none => if name = "localhost" then .ok [loopback] else .error unknownName

/-- A network without a route to anywhere. -/
def down : Network := ⟨localAddresses, fun _ _ => .error isUnreachable⟩

/-- The first address of a name that answers. -/
def reachAny (net : Network) (port : Nat) : Error → List Address → Except Error Peer
  | e, [] => .error e
  | _, a :: rest =>
    match net.reach a port with
    | .ok peer => .ok peer
    | .error e => net.reachAny port e rest

/-- Who answers at a host, which may stand in brackets. -/
def peer (net : Network) (host : String) (port : Nat) : Except Error Peer :=
  let host := String.ofList (unbracket host.toList)
  match net.addresses host with
  | .error e => .error e
  | .ok addresses => net.reachAny port (.other (host ++ " did not resolve")) addresses

end Network

end Wiretap.Net
