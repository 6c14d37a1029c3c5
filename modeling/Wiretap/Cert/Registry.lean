import Wiretap.Cert.Authority
import Wiretap.Text.Quoted

/-!
# The registry of hosts

One certificate for each intercepted host. The first time a host is asked for,
its pair of files is read if both are there, otherwise a certificate is issued
and key and certificate are written, in that order. A pair counts only if the
key belongs to the certificate. Later the record is answered from memory, and
failures leave no record.
-/

namespace Wiretap.Cert

/-- What is presented for a host. -/
structure Record where
  host : String
  certificate : Certificate
  key : Key
  /-- The root that stands behind the certificate. -/
  root : Certificate
  deriving DecidableEq, Repr, Inhabited

/-- Protocols offered to a client of an intercepted host. -/
def Record.alpn (_ : Record) : List String := ["http/1.1"]

structure Registry where
  authority : Authority
  records : List Record
  deriving DecidableEq, Repr, Inhabited

def maxHost : Nat := 253

/-- Letters, digits, point, hyphen, underscore and colon. -/
def isHostChar (c : Char) : Bool :=
  c.isAlphanum || c == '.' || c == '-' || c == '_' || c == ':'

def hasDoublePoint : List Char → Bool
  | '.' :: '.' :: _ => true
  | _ :: rest => hasDoublePoint rest
  | [] => false

/-- Hosts become names of files, so they hold no more than names of hosts and addresses do. -/
def isValidHost (host : String) : Bool :=
  !host.isEmpty && (Utf8.encode host).length ≤ maxHost && host.toList.head? != some '.' &&
    !hasDoublePoint host.toList && host.toList.all isHostChar

namespace Registry

/-- The registry of a directory, with no records yet. -/
def ofVault (v : Vault) : Except Error Registry × Vault :=
  match Authority.ofVault v with
  | (.error e, v) => (.error e, v)
  | (.ok authority, v) => (.ok ⟨authority, []⟩, v)

def find? (r : Registry) (host : String) : Option Record := r.records.find? (·.host == host)

/-- What files hold for a host, as a pair that belongs together. -/
def pair? (certificate key : Content) : Except Error (Certificate × Key) :=
  match certificate, key with
  | .certificate c, .key k =>
    if c.key = k then .ok (c, k)
    else .error (.tls "Failed to create TLS config: keys may not be consistent: KeyMismatch")
  | .certificate _, _ => .error (.certificate "No private key found in PEM")
  | _, _ => .error (.certificate "No certificate found in PEM")

/-- Reads the pair of a host. -/
def load (v : Vault) (host : String) : Except Error (Certificate × Key) :=
  match v.read (certFile host), v.read (keyFile host) with
  | .error e, _ => .error e
  | .ok _, .error e => .error e
  | .ok certificate, .ok key => pair? certificate key

/-- Issues a certificate and writes its key and then itself. -/
def issue (a : Authority) (v : Vault) (host : String) : Except Error (Certificate × Key) × Vault :=
  match a.issue v host with
  | (.error e, v) => (.error e, v)
  | (.ok c, v) =>
    match Authority.store v (keyFile host) (.key c.key) with
    | .error e => (.error e, v)
    | .ok v =>
      match Authority.store v (certFile host) (.certificate c) with
      | .error e => (.error e, v)
      | .ok v => (.ok (c, c.key), v)

def loadOrIssue (a : Authority) (v : Vault) (host : String) :
    Except Error (Certificate × Key) × Vault :=
  if v.has (certFile host) && v.has (keyFile host) then (load v host, v) else issue a v host

def invalidHost (host : String) : Error :=
  .invalidRequest ("Invalid host for certificate: " ++ Text.quote host)

/-- The record of a host, made if there is none. -/
def ensure (r : Registry) (v : Vault) (host : String) : Except Error Record × Registry × Vault :=
  if isValidHost host then
    match r.find? host with
    | some record => (.ok record, r, v)
    | none =>
      match loadOrIssue r.authority v host with
      | (.error e, v) => (.error (.certificate (host ++ ": " ++ e.message)), r, v)
      | (.ok (certificate, key), v) =>
        let record := ⟨host, certificate, key, r.authority.certificate⟩
        (.ok record, { r with records := record :: r.records }, v)
  else (.error (invalidHost host), r, v)

/-- The records of several hosts, one after another. -/
def ensureAll (r : Registry) (v : Vault) :
    List String → List (Except Error Record) × Registry × Vault
  | [] => ([], r, v)
  | host :: hosts =>
    let (result, r, v) := r.ensure v host
    let (results, r, v) := r.ensureAll v hosts
    (result :: results, r, v)

end Registry

end Wiretap.Cert
