import Wiretap.Net.Address

/-!
# Certificates

A key pair is known by a number, and a certificate says which key pair it is
for, which key pair signed it, and what the holder may do. The root signs
itself; a server certificate carries the name of its host, as an address if the
name is one.
-/

namespace Wiretap.Cert

/-- Number of a key pair. -/
abbrev Key := Nat

/-- Who a certificate is about. -/
structure Subject where
  commonName : String
  organization : Option String
  deriving DecidableEq, Repr, Inhabited

def Subject.text (s : Subject) : String :=
  "CN=" ++ s.commonName ++
    match s.organization with
    | some name => ", O=" ++ name
    | none => ""

inductive AltName where
  | dns (name : String)
  | ip (address : Net.Address)
  deriving DecidableEq, Repr, Inhabited

/-- What a certificate is for. -/
inductive Role where
  /-- Signing other certificates. -/
  | root
  /-- Answering as a server. -/
  | server
  deriving DecidableEq, Repr, Inhabited

namespace Role

/-- Seconds by which a certificate begins before it was made. -/
def headStart : Nat := 60

/-- Seconds from the beginning of a certificate to its end: ten years for a root, one year for a
server. -/
def lifetime : Role → Nat
  | root => 3650 * 24 * 60 * 60 + headStart
  | server => 365 * 24 * 60 * 60 + headStart

def signsCertificates : Role → Bool
  | root => true
  | server => false

def agreesOnKeys : Role → Bool
  | root => false
  | server => true

/-- Whether servers may present it, if it is limited to certain uses at all. -/
def authenticatesServers : Role → Option Bool
  | root => none
  | server => some true

end Role

structure Certificate where
  subject : Subject
  issuer : Subject
  names : List AltName
  role : Role
  /-- The key pair it is for. -/
  key : Key
  /-- The key pair that signed it. -/
  signer : Key
  deriving DecidableEq, Repr, Inhabited

namespace Certificate

def rootSubject : Subject := ⟨"Stream Proxy CA", some "Stream Proxy"⟩

def root (key : Key) : Certificate := ⟨rootSubject, rootSubject, [], .root, key, key⟩

/-- The name under which a host is found; a name of other than ASCII characters is none. -/
def altName? (host : String) : Option AltName :=
  match Net.Address.parse? host with
  | some address => some (.ip address)
  | none => if host.toList.all fun c => c.toNat < 0x80 then some (.dns host) else none

def SignedBy (c : Certificate) (signer : Certificate) : Prop := c.signer = signer.key

instance (c signer : Certificate) : Decidable (c.SignedBy signer) :=
  inferInstanceAs (Decidable (_ = _))

end Certificate

end Wiretap.Cert
