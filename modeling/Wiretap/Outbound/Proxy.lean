import Wiretap.Error
import Wiretap.Net.Address
import Wiretap.Text.Base64
import Wiretap.Text.Percent
import Wiretap.Uri

/-!
# Chained proxies

The proxy that every outbound connection is made through, given by a URL. It
is spoken to in HTTP, or in SOCKS5 with names resolved here or by the proxy.
User information in the URL is percent encoded; an empty password is none.
-/

namespace Wiretap

structure Credentials where
  user : String
  password : Option String
  deriving DecidableEq, Repr, Inhabited

namespace Credentials

/-- Of user information: the user before the first colon and the password behind it. -/
def ofUserInfo (info : List Char) : Credentials where
  user := Text.percentDecoded (String.ofList (info.takeWhile (· != ':')))
  password :=
    let password := (info.dropWhile (· != ':')).drop 1
    if password.isEmpty then none else some (Text.percentDecoded (String.ofList password))

/-- The credentials as the value of an HTTP header. -/
def basic (c : Credentials) : String :=
  "Basic " ++ String.ofList (Text.base64 (Utf8.encode (c.user ++ ":" ++ c.password.getD "")))

end Credentials

inductive ProxyProtocol where
  | http
  /-- With `remoteNames` the proxy resolves host names. -/
  | socks5 (remoteNames : Bool)
  deriving DecidableEq, Repr, Inhabited

structure Proxy where
  uri : Uri
  host : String
  port : Nat
  protocol : ProxyProtocol
  credentials : Option Credentials
  deriving DecidableEq, Repr, Inhabited

namespace Proxy

def protocol? (scheme : Option String) : Option ProxyProtocol :=
  if scheme = some "http" then some .http
  else if scheme = some "socks5" then some (.socks5 false)
  else if scheme = some "socks5h" then some (.socks5 true)
  else none

def defaultPort : ProxyProtocol → Nat
  | .http => 80
  | .socks5 _ => 1080

/-- The proxy that a URL names. -/
def parse (url : String) : Except Error Proxy :=
  match Uri.parse url with
  | .error e => .error (.proxy ("invalid proxy url " ++ url ++ ": " ++ e.message))
  | .ok uri =>
    match uri.host? with
    | none => .error (.proxy ("proxy url has no host: " ++ url))
    | some host =>
      match protocol? uri.scheme with
      | none => .error (.proxy ("unsupported proxy scheme: " ++ url))
      | some protocol =>
        .ok ⟨uri, String.ofList (Net.unbracket host), uri.port?.getD (defaultPort protocol), protocol,
          uri.userInfo?.map Credentials.ofUserInfo⟩

end Proxy

end Wiretap
