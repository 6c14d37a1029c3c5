import Wiretap.Cert.Certificate
import Wiretap.Error
import Wiretap.Text.Utf8

/-!
# The certificate directory

Files and folders by name, with the number of the next key pair. Files hold a
certificate, a key, or bytes that are neither. Reading and writing fail as the
file system does: where there is no directory, over a folder, and for names
that are too long.
-/

namespace Wiretap.Cert

inductive Content where
  | certificate (certificate : Certificate)
  | key (key : Key)
  /-- Neither a certificate nor a key. -/
  | bytes (bytes : Bytes)
  deriving DecidableEq, Repr, Inhabited

inductive Entry where
  | file (content : Content)
  | folder
  deriving DecidableEq, Repr, Inhabited

/-- What stands where the directory should be. -/
inductive Place where
  | nothing
  | file
  | directory (entries : List (String × Entry))
  deriving DecidableEq, Repr, Inhabited

structure Vault where
  path : String
  place : Place
  /-- Number of the next key pair. -/
  nextKey : Key
  deriving DecidableEq, Repr, Inhabited

namespace Vault

/-- Nothing has been made yet. -/
def empty (path : String) : Vault := ⟨path, .nothing, 0⟩

def entries (v : Vault) : List (String × Entry) :=
  match v.place with
  | .directory entries => entries
  | _ => []

def get? (v : Vault) (name : String) : Option Entry := v.entries.lookup name

def has (v : Vault) (name : String) : Bool := (v.get? name).isSome

/-- The names in the directory, in order. -/
def names (v : Vault) : List String := (v.entries.map (·.1)).mergeSort fun a b => decide (a ≤ b)

/-- The directory with one entry more, in place of any of that name. -/
def put (v : Vault) (name : String) (entry : Entry) : Vault :=
  { v with place := .directory ((name, entry) :: v.entries.filter (·.1 != name)) }

/-- Most bytes in the name of a file. -/
def maxName : Nat := 255

def isTooLong (name : String) : Bool := maxName < (Utf8.encode name).length

def notFound : Error := .os .notFound 2 "No such file or directory"

def isDirectory : Error := .os .isADirectory 21 "Is a directory"

def notDirectory : Error := .os .notADirectory 20 "Not a directory"

def alreadyExists : Error := .os .alreadyExists 17 "File exists"

def tooLong : Error := .os .invalidFilename 36 "File name too long"

def notText : Error := .io .invalidData "stream did not contain valid UTF-8"

/-- What keeps a file of that name from being written. -/
def obstacle (v : Vault) (name : String) : Option Error :=
  match v.place with
  | .nothing => some notFound
  | .file => some notDirectory
  | .directory _ =>
    if isTooLong name then some tooLong
    else if v.get? name = some .folder then some isDirectory
    else none

def write (v : Vault) (name : String) (content : Content) : Except Error Vault :=
  match v.obstacle name with
  | some e => .error e
  | none => .ok (v.put name (.file content))

/-- The content of a file of text. -/
def read (v : Vault) (name : String) : Except Error Content :=
  match v.get? name with
  | none => .error notFound
  | some .folder => .error isDirectory
  | some (.file (.bytes b)) => if (Utf8.decode? b).isSome then .ok (.bytes b) else .error notText
  | some (.file content) => .ok content

/-- Makes the directory unless it is there. -/
def make (v : Vault) : Except Error Vault :=
  match v.place with
  | .nothing => .ok { v with place := .directory [] }
  | .file => .error alreadyExists
  | .directory _ => .ok v

/-- The number of a new key pair. -/
def newKey (v : Vault) : Key × Vault := (v.nextKey, { v with nextKey := v.nextKey + 1 })

/-! ## What others do to the directory -/

/-- Removes a file or a folder. -/
def remove (v : Vault) (name : String) : Option Vault :=
  if v.has name then some { v with place := .directory (v.entries.filter (·.1 != name)) } else none

def copy (v : Vault) (source target : String) : Option Vault :=
  match v.get? source with
  | some (.file content) => (v.write target content).toOption
  | _ => none

/-- Makes a folder unless it is there, and the directory before it. -/
def makeFolder (v : Vault) (name : String) : Option Vault :=
  match v.make with
  | .error _ => none
  | .ok made =>
    match made.get? name with
    | none => if isTooLong name then none else some (made.put name .folder)
    | some .folder => some made
    | some (.file _) => none

/-- Puts a plain file where the directory should be. -/
def block (v : Vault) : Option Vault :=
  match v.place with
  | .directory _ => none
  | _ => some { v with place := .file }

end Vault

end Wiretap.Cert
