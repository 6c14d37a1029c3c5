import Wiretap.Bytes
import Wiretap.Net.Network

/-!
# TLS with the origin

Before the handshake the name of the server must be an address or a name of
labels, and after it the certificate must be trusted and be for that name. Of
the protocols offered the server takes the one it likes best; a server with
none in common breaks the handshake off.
-/

namespace Wiretap.Outbound

/-- Most bytes in a name of a server. -/
def maxServerName : Nat := 253

def maxLabel : Nat := 63

def isLabel (label : List Char) : Bool :=
  !label.isEmpty && label.length ≤ maxLabel &&
    label.all (fun c => c.isAlphanum || c == '-' || c == '_') &&
    label.head? != some '-' && label.getLast? != some '-'

/-- The labels of a name, without the empty one behind a point at its end. -/
def labels (name : List Char) : List (List Char) :=
  match (Bytes.splitOn '.' name).reverse with
  | [] :: label :: rest => (label :: rest).reverse
  | all => all.reverse

/-- A name of labels of which the last is not a number. -/
def isDnsName (name : List Char) : Bool :=
  name.length ≤ maxServerName && (labels name).all isLabel &&
    (labels name).getLast?.any fun label => !label.all Char.isDigit

/-- The name under which a host is asked for its certificate. -/
def serverName (host : String) : Except Error String :=
  let name := Net.unbracket host.toList
  let text := String.ofList name
  if (Net.Address.parse? text).isSome || isDnsName name then .ok text
  else .error (.tls ("invalid server name " ++ host ++ ": invalid dns name"))

/-- The protocols offered to an origin. -/
def offered : List String := ["http/1.1"]

/-- The protocol two sides agree on; no choice is made if either has none. -/
def agreed (server client : List String) : Except Error (Option String) :=
  if server.isEmpty || client.isEmpty then .ok none
  else
    match server.find? client.contains with
    | some protocol => .ok (some protocol)
    | none => .error (.io .invalidData "received fatal alert: NoApplicationProtocol")

/-- Whether two names are one, whatever the case of their letters. -/
def sameName (a b : String) : Bool := a.toList.map Char.toLower == b.toList.map Char.toLower

def wrongName (name certified : String) : Error :=
  let kind := if (Net.Address.parse? certified).isSome then "IpAddress" else "DnsName"
  .io .invalidData ("invalid peer certificate: certificate not valid for name " ++ Text.quote name ++
    "; certificate is only valid for " ++ kind ++ "(" ++ Text.quote certified ++ ")")

/-- A handshake with a server of that name: the protocol that is agreed on. -/
def handshake (h : Net.Handshaker) (name : String) : Except Error (Option String) :=
  match agreed h.alpn offered with
  | .error e => .error e
  | .ok protocol =>
    if !h.trusted then .error (.io .invalidData "invalid peer certificate: UnknownIssuer")
    else if sameName h.name name then .ok protocol
    else .error (wrongName name h.name)

end Wiretap.Outbound
