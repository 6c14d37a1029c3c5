import Wiretap.Cert.Vault

/-!
# The authority

The root certificate and its key, kept in `ca.crt` and `ca.key`. If both are
there they are read, otherwise both are made. The authority issues server
certificates, each for a new key pair.
-/

namespace Wiretap.Cert

/-- Name of the file of a certificate. -/
def certFile (name : String) : String := name ++ ".crt"

/-- Name of the file of a key. -/
def keyFile (name : String) : String := name ++ ".key"

structure Authority where
  certificate : Certificate
  /-- Key pair that signs what the authority issues. -/
  key : Key
  deriving DecidableEq, Repr, Inhabited

namespace Authority

/-- Name of the authority's own files. -/
def ownName : String := "ca"

def writeFailure (v : Vault) (name : String) (e : Error) : Error :=
  .certificate ("Failed to write " ++ v.path ++ "/" ++ name ++ ": " ++ e.text)

/-- Writes a file of the directory; failing to is a failure of the certificate. -/
def store (v : Vault) (name : String) (content : Content) : Except Error Vault :=
  (v.write name content).mapError (writeFailure v name)

/-- Reads the root from the directory. -/
def load (v : Vault) : Except Error Authority :=
  match v.read (certFile ownName), v.read (keyFile ownName) with
  | .error e, _ => .error e
  | .ok _, .error e => .error e
  | .ok (.certificate c), .ok (.key k) => .ok ⟨c, k⟩
  | .ok _, .ok (.key _) => .error (.certificate "Failed to create issuer from CA cert")
  | .ok _, .ok _ => .error (.certificate "Failed to parse CA key")

/-- Makes a new root and writes its certificate, then its key. -/
def generate (v : Vault) : Except Error Authority × Vault :=
  let (key, v) := v.newKey
  let root := Certificate.root key
  match store v (certFile ownName) (.certificate root) with
  | .error e => (.error e, v)
  | .ok v =>
    match store v (keyFile ownName) (.key key) with
    | .error e => (.error e, v)
    | .ok v => (.ok ⟨root, key⟩, v)

/-- The authority of a directory, which is made if it is not there. -/
def ofVault (v : Vault) : Except Error Authority × Vault :=
  match v.make with
  | .error e =>
    (.error (.certificate ("Failed to create certificate directory " ++ v.path ++ ": " ++ e.text)), v)
  | .ok v =>
    if v.has (certFile ownName) && v.has (keyFile ownName) then (load v, v) else generate v

/-- A certificate for a host, for a new key pair. -/
def issue (a : Authority) (v : Vault) (host : String) : Except Error Certificate × Vault :=
  match Certificate.altName? host with
  | none => (.error (.certificate ("Invalid domain name: " ++ host)), v)
  | some name =>
    let (key, v) := v.newKey
    (.ok ⟨⟨host, none⟩, a.certificate.subject, [name], .server, key, a.key⟩, v)

/-- Whether the root certificate can be read for handing out. -/
def published (v : Vault) : Except Error Content :=
  (v.read (certFile ownName)).mapError fun e => .certificate ("Failed to read CA cert: " ++ e.text)

end Authority

end Wiretap.Cert
