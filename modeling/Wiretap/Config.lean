import Wiretap.Policy
import Wiretap.Text.Blank
import Wiretap.Outbound.Proxy

/-!
# Configuration

Defaults that variables of the environment override. A variable that is blank
counts as absent. The first variable that cannot be read, in the order of
`ofLookup`, is the error.
-/

namespace Wiretap

structure Config where
  host : String
  port : Nat
  intercept : List String
  passthrough : List String
  proxy : Option Proxy
  /-- Where the root certificate and those of the hosts are kept. -/
  certDir : String
  logDir : String
  /-- Parts of a path that mark a request whose response is tapped. -/
  markers : List String
  /-- Seconds without traffic after which a tunnel ends. -/
  idle : Option Nat
  /-- Seconds for a connection to the origin. -/
  connect : Option Nat
  /-- The text of every complete stream is written to the log directory. -/
  dump : Bool
  deriving DecidableEq, Repr, Inhabited

namespace Config

def defaultMarkers : List String := ["GenerateContent", "generateContent"]

def default : Config where
  host := "0.0.0.0"
  port := 3120
  intercept := ["*.google.com"]
  passthrough := defaultPassthrough
  proxy := none
  certDir := "certs"
  logDir := "logs"
  markers := defaultMarkers
  idle := some 600
  connect := some 10
  dump := false

/-- The items of a list separated by commas, without blank ones. -/
def splitList (value : String) : List String :=
  ((Text.splitOn ',' value).map Text.trim).filter (!·.isEmpty)

def hostVar : String := "STREAM_HOST"

def portVar : String := "STREAM_PORT"

def interceptVar : String := "STREAM_INTERCEPT_DOMAINS"

def certDirVar : String := "STREAM_CERT_DIR"

def logDirVar : String := "STREAM_LOG_DIR"

def idleVar : String := "STREAM_IDLE_TIMEOUT"

def dumpVar : String := "STREAM_DUMP"

def proxyVars : List String := ["UNIFIED_PROXY_CONFIG", "HTTPS_PROXY"]

def port? (value : String) : Except Error Nat :=
  match Number.word16? (Text.trimChars value.toList) with
  | some port => .ok port
  | none => .error (.other (portVar ++ " is not a port: " ++ value))

/-- Zero seconds are no limit. -/
def idle? (value : String) : Except Error (Option Nat) :=
  match Number.word64? (Text.trimChars value.toList) with
  | some 0 => .ok none
  | some secs => .ok (some secs)
  | none => .error (.other (idleVar ++ " is not a number: " ++ value))

def isYes (value : String) : Bool := ["1", "true", "TRUE", "yes"].contains (Text.trim value)

/-- The value that a variable gives, or the default if it is not set. -/
def setting {α : Type} (value : Option String) (default : α) (read : String → Except Error α) :
    Except Error α :=
  match value with
  | some v => read v
  | none => .ok default

/-- The configuration for an environment. -/
def ofLookup (lookup : String → Option String) : Except Error Config := do
  let var (name : String) := (lookup name).filter (!Text.isBlankText ·)
  let port ← setting (var portVar) default.port port?
  let idle ← setting (var idleVar) default.idle idle?
  let proxy ← setting (proxyVars.findSome? var) default.proxy fun url =>
    (Proxy.parse (Text.trim url)).map some
  return {
    host := ((var hostVar).map Text.trim).getD default.host
    port
    intercept := ((var interceptVar).map splitList).getD default.intercept
    passthrough := default.passthrough
    proxy
    certDir := (var certDirVar).getD default.certDir
    logDir := (var logDirVar).getD default.logDir
    markers := default.markers
    idle
    connect := default.connect
    dump := ((var dumpVar).map isYes).getD default.dump }

def policy (c : Config) : Policy := ⟨c.passthrough, c.intercept⟩

/-- The address to listen on. -/
def bindAddress (c : Config) : String :=
  c.host ++ ":" ++ String.ofList (Number.decimal c.port)

end Config

end Wiretap
