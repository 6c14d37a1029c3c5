import Wiretap.Cert.Pem
import Wiretap.Command.Options
import Wiretap.Server

/-!
# Runs of the program

The settings come from the environment, and those on the command line stand in
for them. Then the certificate directory is opened. A run either prints the
root certificate or listens and says so; the first failure ends it.
-/

namespace Wiretap.Command

/-- How a run ends. -/
inductive Ending where
  /-- The options were explained. -/
  | help
  | version
  /-- The command line could not be read. -/
  | misuse
  | failed (error : Error)
  /-- The root certificate was printed. -/
  | printed (root : Cert.Certificate)
  /-- The server accepted connections, after these messages. -/
  | served (messages : List String)
  deriving DecidableEq, Repr, Inhabited

namespace Ending

def code : Ending → Nat
  | help | version | printed _ | served _ => 0
  | failed _ => 1
  | misuse => 2

end Ending

/-- What a run finds around it. -/
structure Surroundings where
  lookup : String → Option String
  /-- The certificate directory at a path. -/
  vault : String → Cert.Vault
  /-- What comes of listening at an address. -/
  listen : String → Except Error Unit

/-- Sets what the options give. -/
def Options.apply (o : Options) (c : Config) : Except Error Config := do
  let proxy ← match o.proxy with
    | some url => (Proxy.parse url).map some
    | .none => .ok c.proxy
  return { c with
    host := o.host.getD c.host
    port := o.port.getD c.port
    proxy
    intercept := if o.intercept.isEmpty then c.intercept else o.intercept
    certDir := o.certDir.getD c.certDir }

/-- The configuration of a run. -/
def configure (s : Surroundings) (o : Options) : Except Error Config := do
  let c ← Config.ofLookup s.lookup
  o.apply c

/-- A run with a configuration. -/
def serve (s : Surroundings) (c : Config) (printRoot : Bool) : Ending × Cert.Vault :=
  match Server.ofConfig c (s.vault c.certDir) .attached with
  | (.error e, v) => (.failed e, v)
  | (.ok server, v) =>
    if printRoot then (.printed server.registry.authority.certificate, v)
    else
      match s.listen c.bindAddress with
      | .error e => (.failed e, v)
      | .ok () => (.served server.outbox.ready, v)

/-- A run with these arguments, and the certificate directory it leaves behind. -/
def run (s : Surroundings) (args : List String) : Ending × Option Cert.Vault :=
  match Options.read args with
  | .help => (.help, none)
  | .version => (.version, none)
  | .misuse => (.misuse, none)
  | .run o =>
    match configure s o with
    | .error e => (.failed e, none)
    | .ok c =>
      let (ending, v) := serve s c o.printRoot
      (ending, some v)

def name : String := "stream-proxy"

def versionText : String := name ++ " 0.1.0"

def usage : String := "Usage: " ++ name ++ " [OPTIONS]"

def helpText : String :=
  "\n".intercalate [
    "Intercepting HTTPS proxy that republishes a streaming RPC on stdout.",
    "",
    usage,
    "",
    "Options:",
    "      --host <HOST>            Address to listen on",
    "  -p, --port <PORT>            Port to listen on",
    "      --proxy <PROXY>          Proxy URL (http://, socks5:// or socks5h://)",
    "  -i, --intercept <INTERCEPT>  Host or *.suffix pattern to intercept",
    "      --cert-dir <CERT_DIR>    Directory of the root CA and issued certificates",
    "      --print-ca               Print the root CA certificate (PEM) and exit",
    "      --log-level <LOG_LEVEL>  Log filter used when RUST_LOG is not set [default: info]",
    "  -h, --help                   Print help",
    "  -V, --version                Print version"]

/-- What a run prints to standard output. -/
def Ending.output : Ending → String
  | help => helpText ++ "\n"
  | version => versionText ++ "\n"
  | misuse | failed _ => ""
  | printed root => root.pem
  | served messages => String.join (messages.map (· ++ "\n"))

/-- What a run says of its failure. -/
def Ending.failure : Ending → Option String
  | failed e => some ("Error: " ++ e.shown)
  | _ => none

end Wiretap.Command
