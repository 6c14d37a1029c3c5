/-!
# Interception policy

Which hosts are decrypted. A passthrough host never is. Otherwise a host is
decrypted if it is an intercept entry, or ends with `.suffix` for an entry
`*.suffix`.
-/

namespace Wiretap

/-- Sign-in and telemetry hosts of the browser, which must not see a foreign certificate. -/
def defaultPassthrough : List String :=
  ["feedback-pa.clients6.google.com", "play.google.com", "apis.google.com", "accounts.google.com"]

structure Policy where
  passthrough : List String
  intercept : List String
  deriving DecidableEq, Repr, Inhabited

namespace Policy

/-- What a wildcard entry asks of the end of a host: a point and what follows it. -/
def wildcard? (entry : String) : Option (List Char) :=
  match entry.toList with
  | '*' :: '.' :: suffix => some ('.' :: suffix)
  | _ => none

def matchesWildcard (entry host : String) : Bool :=
  match wildcard? entry with
  | some suffix => suffix.isSuffixOf host.toList
  | none => false

/-- Whether the tunnel to `host` is decrypted. -/
def decrypts (p : Policy) (host : String) : Bool :=
  !p.passthrough.contains host &&
    (p.intercept.contains host || p.intercept.any (matchesWildcard · host))

theorem decrypts_eq_false_of_mem {p : Policy} {host : String} (h : host ∈ p.passthrough) :
    p.decrypts host = false := by
  simp [decrypts, h]

end Policy

end Wiretap
