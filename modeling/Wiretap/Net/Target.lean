import Wiretap.Error
import Wiretap.Net.Address
import Wiretap.Uri

/-!
# Targets

What a client asks to be connected to: a host and, behind the last colon, a
port. Brackets around the host are removed, and a host must be left.
-/

namespace Wiretap.Net

structure Target where
  host : String
  port : Nat
  deriving DecidableEq, Repr, Inhabited

def Target.parse (target : String) : Except Error Target :=
  match Uri.beforeLast? ':' target.toList with
  | none => .error (.invalidRequest ("CONNECT target without port: " ++ target))
  | some host =>
    match Number.word16? (Uri.behindLast ':' target.toList) with
    | none => .error (.invalidRequest ("bad port in CONNECT target: " ++ target))
    | some port =>
      let host := unbracket host
      if host.isEmpty then .error (.invalidRequest ("CONNECT target without host: " ++ target))
      else .ok ⟨String.ofList host, port⟩

end Wiretap.Net
