import Wiretap.Http.Head
import Wiretap.Text.Blank
import Wiretap.Outbound.Proxy

/-!
# Asking a proxy for a tunnel

A handshake over a connection: what the proxy sends is read no further than
the answer goes, so that all behind it belongs to the tunnel. `Wire` holds what
the proxy has sent and will not add to, and what was sent to it.

In HTTP the answer is a head of at most 16384 bytes whose status is in the
two hundreds. In SOCKS5 it is a choice of authentication, its outcome if a
password was asked for, and a reply with the address the proxy bound.
-/

namespace Wiretap.Proxy

structure Wire where
  incoming : Bytes
  sent : Bytes
  deriving DecidableEq, Repr

/-- A step of a handshake. -/
abbrev Talk (α : Type) := Wire → Except Error α × Wire

namespace Talk

def fail {α : Type} (e : Error) : Talk α := fun w => (.error e, w)

def done {α : Type} (a : α) : Talk α := fun w => (.ok a, w)

def send (s : Bytes) : Talk Unit := fun w => (.ok (), { w with sent := w.sent ++ s })

def earlyEof : Error := .io .unexpectedEof "early eof"

/-- Exactly `n` bytes; if there are fewer they are gone. -/
def receive (n : Nat) : Talk Bytes := fun w =>
  if n ≤ w.incoming.length then (.ok (w.incoming.take n), { w with incoming := w.incoming.drop n })
  else (.error earlyEof, { w with incoming := [] })

def andThen {α β : Type} (t : Talk α) (f : α → Talk β) : Talk β := fun w =>
  match t w with
  | (.ok a, w) => f a w
  | (.error e, w) => (.error e, w)

end Talk

open Talk

/-! ## HTTP -/

def line (s : String) : Bytes := Utf8.encode s ++ Bytes.crlf

/-- The request for a tunnel. -/
def httpRequest (credentials : Option Credentials) (target : String) : Bytes :=
  line ("CONNECT " ++ target ++ " HTTP/1.1") ++ line ("Host: " ++ target) ++
    line "Proxy-Connection: Keep-Alive" ++
    (match credentials with
      | some c => line ("Proxy-Authorization: " ++ c.basic)
      | none => []) ++
    Bytes.crlf

def maxHead : Nat := 16384

inductive HeadRead where
  | head (head rest : Bytes)
  | tooLarge (rest : Bytes)
  | closed
  deriving DecidableEq, Repr

def endsHead : Bytes → Bool
  | 0x0a :: 0x0d :: 0x0a :: 0x0d :: _ => true
  | _ => false

/-- Reads a head byte by byte; `acc` holds it so far, last byte first. -/
def readHeadFrom (acc : Bytes) (n : Nat) : Bytes → HeadRead
  | [] => .closed
  | b :: rest =>
    if maxHead < n + 1 then .tooLarge rest
    else if endsHead (b :: acc) then .head (b :: acc).reverse rest
    else readHeadFrom (b :: acc) (n + 1) rest

def receiveHead : Talk Bytes := fun w =>
  match readHeadFrom [] 0 w.incoming with
  | .head head rest => (.ok head, { w with incoming := rest })
  | .tooLarge rest => (.error (.proxy "CONNECT response head too large"), { w with incoming := rest })
  | .closed =>
    (.error (.io .unexpectedEof "upstream proxy closed during CONNECT"), { w with incoming := [] })

/-- The status on a status line: a word that starts with `HTTP/` and a number behind it. -/
def statusCode? (head : Bytes) : Option Nat :=
  match Utf8.decode? (head.takeWhile (· != Bytes.lf)) with
  | none => none
  | some line =>
    match Text.words line with
    | version :: status :: _ =>
      if "HTTP/".toList.isPrefixOf version then Number.word16? status else none
    | _ => none

def establishHttp (credentials : Option Credentials) (host : String) (port : Nat) : Talk Unit :=
  let target := Net.hostPort host port
  (send (httpRequest credentials target)).andThen fun _ =>
    receiveHead.andThen fun head =>
      match statusCode? head with
      | none => fail (.proxy "malformed CONNECT response from upstream proxy")
      | some status =>
        if 200 ≤ status ∧ status < 300 then done ()
        else fail (.proxy ("upstream proxy refused CONNECT " ++ target ++ " with status " ++
          toString status))

/-! ## SOCKS5 -/

def greeting (credentials : Option Credentials) : Bytes :=
  if credentials.isSome then [5, 2, 0, 2] else [5, 1, 0]

def byteLength (s : String) : Nat := (Utf8.encode s).length

def passwordPacket (c : Credentials) : Bytes :=
  let user := Utf8.encode c.user
  let password := Utf8.encode (c.password.getD "")
  1 :: user.length.toUInt8 :: user ++ password.length.toUInt8 :: password

def authenticate (c : Credentials) : Talk Unit :=
  if 255 < byteLength c.user ∨ 255 < byteLength (c.password.getD "") then
    fail (.proxy "SOCKS5 credentials longer than 255 bytes")
  else
    (send (passwordPacket c)).andThen fun _ =>
      (receive 2).andThen fun answer =>
        match answer with
        | [_, 0] => done ()
        | _ => fail (.proxy ("SOCKS5 authentication with username \x60" ++ c.user ++
            "\x60 rejected"))

def negotiate (credentials : Option Credentials) : Talk Unit :=
  (send (greeting credentials)).andThen fun _ =>
    (receive 2).andThen fun answer =>
      match answer, credentials with
      | [5, 0], _ => done ()
      | [5, 2], some c => authenticate c
      | 5 :: _, _ => fail (.proxy "no acceptable SOCKS5 auth methods")
      | _, _ => fail (.io .invalidData "unsupported SOCKS version")

/-- Where the proxy is to connect to. -/
inductive Destination where
  | address (address : Net.Address)
  | name (host : Bytes)
  deriving DecidableEq, Repr

/-- What comes of asking for the address of a name. -/
abbrev Resolver := String → Except Error Net.Address

def destination (resolve : Resolver) (remoteNames : Bool) (host : String) :
    Except Error Destination :=
  match Net.Address.parse? host with
  | some a => .ok (.address a)
  | none =>
    if remoteNames then
      if 255 < byteLength host then .error (.invalidRequest ("hostname too long: " ++ host))
      else .ok (.name (Utf8.encode host))
    else (resolve host).map .address

def portBytes (port : Nat) : Bytes := [(port / 256).toUInt8, (port % 256).toUInt8]

def connectPacket (d : Destination) (port : Nat) : Bytes :=
  let target :=
    match d with
    | .address (.v4 octets) => 1 :: octets
    | .address (.v6 octets) => 4 :: octets
    | .name host => 3 :: host.length.toUInt8 :: host
  [5, 1, 0] ++ target ++ portBytes port

/-- The reply to a request, with the bound address behind it. -/
def receiveReply : Talk Unit :=
  (receive 4).andThen fun reply =>
    match reply with
    | [version, code, _, kind] =>
      if version ≠ 5 then fail (.proxy ("SOCKS version " ++ toString version.toNat))
      else if code ≠ 0 then fail (.reply (ReplyError.ofCode code))
      else if kind = 1 then (receive 6).andThen fun _ => done ()
      else if kind = 4 then (receive 18).andThen fun _ => done ()
      else if kind = 3 then
        (receive 1).andThen fun length =>
          (receive ((length.headD 0).toNat + 2)).andThen fun _ => done ()
      else fail (.reply .addressTypeNotSupported)
    | _ => fail earlyEof

def establishSocks5 (resolve : Resolver) (credentials : Option Credentials) (remoteNames : Bool)
    (host : String) (port : Nat) : Talk Unit :=
  (negotiate credentials).andThen fun _ =>
    match destination resolve remoteNames host with
    | .error e => fail e
    | .ok d => (send (connectPacket d port)).andThen fun _ => receiveReply

/-- Asks the proxy for a tunnel to a host and port. -/
def establish (resolve : Resolver) (p : Proxy) (host : String) (port : Nat) : Talk Unit :=
  match p.protocol with
  | .http => establishHttp p.credentials host port
  | .socks5 remoteNames => establishSocks5 resolve p.credentials remoteNames host port

end Wiretap.Proxy
