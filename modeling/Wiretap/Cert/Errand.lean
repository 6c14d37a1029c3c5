import Wiretap.Cert.Registry

/-!
# Errands

What opening a directory and fetching the pair of a host do to the directory, one operation after
another, so that several errands can be under way together and an errand can be left where it
stands. An errand ends with its result or with the first operation that fails. A write that is not
through may leave bytes in its file that are neither a certificate nor a key.
-/

namespace Wiretap.Cert

/-- What is seen of the work on a directory and of the calls. -/
inductive Event where
  /-- A registry is there to be asked. -/
  | opened
  /-- A registry could not be had. -/
  | refused (e : Error)
  /-- A key pair was generated for the files of that name. -/
  | generated (name : String)
  /-- A file was changed. -/
  | wrote (file : String)
  /-- A record was taken into memory. -/
  | kept (record : Record)
  /-- A call for a host was answered with a record. -/
  | answered (host : String) (record : Record)
  | denied (host : String) (e : Error)
  deriving DecidableEq

/-- How one operation goes. -/
inductive Progress where
  /-- As the directory has it. -/
  | whole
  /-- A write has got no further than these bytes; any other operation is whole. -/
  | partly (bytes : Bytes)
  | fails (e : Error)

/-- The outcome of an operation that would have this one. -/
def Progress.outcome {α : Type} (p : Progress) (whole : Except Error α) : Except Error α :=
  match p with
  | fails e => .error e
  | _ => whole

inductive Errand (α : Type) where
  | done (result : Except Error α)
  | make (next : Errand α)
  | look (file : String) (next : Bool → Errand α)
  | read (file : String) (next : Content → Errand α)
  | newKey (next : Key → Errand α)
  | write (file : String) (content : Content) (next : Errand α)

def Authority.makeFailure (v : Vault) (e : Error) : Error :=
  .certificate ("Failed to create certificate directory " ++ v.path ++ ": " ++ e.text)

namespace Errand

variable {α : Type}

/-- All of an errand at once. -/
def run : Errand α → Vault → Except Error α × Vault
  | done result, v => (result, v)
  | make next, v =>
    match v.make with
    | .error e => (.error (Authority.makeFailure v e), v)
    | .ok v => next.run v
  | look file next, v => (next (v.has file)).run v
  | read file next, v =>
    match v.read file with
    | .error e => (.error e, v)
    | .ok content => (next content).run v
  | newKey next, v =>
    let (key, v) := v.newKey
    (next key).run v
  | write file content next, v =>
    match Authority.store v file content with
    | .error e => (.error e, v)
    | .ok v => next.run v

/-- One operation of an errand for the files of a name. -/
def step (name : String) (p : Progress) (errand : Errand α) (v : Vault) :
    List Event × Errand α × Vault :=
  match errand with
  | done result => ([], done result, v)
  | make next =>
    match p.outcome v.make with
    | .error e => ([], done (.error (Authority.makeFailure v e)), v)
    | .ok v => ([], next, v)
  | look file next => ([], next (v.has file), v)
  | read file next =>
    match p.outcome (v.read file) with
    | .error e => ([], done (.error e), v)
    | .ok content => ([], next content, v)
  | newKey next =>
    let (key, v) := v.newKey
    ([.generated name], next key, v)
  | write file content next =>
    match p with
    | .partly bytes =>
      match v.write file (.bytes bytes) with
      | .error _ => ([], errand, v)
      | .ok v => ([.wrote file], errand, v)
    | _ =>
      match p.outcome (v.write file content) with
      | .error e => ([], done (.error (Authority.writeFailure v file e)), v)
      | .ok v => ([.wrote file], next, v)

/-- Whether both files of a name are there. -/
def lookBoth (name : String) (there missing : Errand α) : Errand α :=
  look (certFile name) fun hasCertificate =>
    if hasCertificate then look (keyFile name) fun hasKey => if hasKey then there else missing
    else missing

/-- What both files of a name stand for. -/
def readBoth (name : String) (result : Content → Content → Except Error α) : Errand α :=
  read (certFile name) fun certificate =>
    read (keyFile name) fun key => done (result certificate key)

end Errand

namespace Authority

/-- The authority that a certificate and a key make. -/
def ofContents (certificate key : Content) : Except Error Authority :=
  match certificate, key with
  | .certificate c, .key k => .ok ⟨c, k⟩
  | _, .key _ => .error (.certificate "Failed to create issuer from CA cert")
  | _, _ => .error (.certificate "Failed to parse CA key")

/-- Makes a new root. -/
def generating : Errand Authority :=
  .newKey fun key =>
    let root := Certificate.root key
    .write (certFile ownName) (.certificate root) <|
      .write (keyFile ownName) (.key key) <| .done (.ok ⟨root, key⟩)

/-- Reads the root of a directory, or makes it. -/
def opening : Errand Authority :=
  .make <| .lookBoth ownName (.readBoth ownName ofContents) generating

/-- The certificate that is issued for a host and a new key pair. -/
def leaf (a : Authority) (host : String) (name : AltName) (key : Key) : Certificate :=
  ⟨⟨host, none⟩, a.certificate.subject, [name], .server, key, a.key⟩

end Authority

namespace Registry

/-- Makes a pair for a host. -/
def issuing (a : Authority) (host : String) : Errand (Certificate × Key) :=
  match Certificate.altName? host with
  | none => .done (.error (.certificate ("Invalid domain name: " ++ host)))
  | some name =>
    .newKey fun key =>
      let c := a.leaf host name key
      .write (keyFile host) (.key key) <|
        .write (certFile host) (.certificate c) <| .done (.ok (c, key))

/-- Reads the pair of a host, or makes it. -/
def fetching (a : Authority) (host : String) : Errand (Certificate × Key) :=
  .lookBoth host (.readBoth host pair?) (issuing a host)

end Registry

end Wiretap.Cert
