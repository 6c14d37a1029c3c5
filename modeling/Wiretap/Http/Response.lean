import Wiretap.Crash
import Wiretap.Http.Headers
import Wiretap.Number.Digits

/-!
# Response heads

The first line gives status and reason, and stands for `200 OK` if it cannot
be read. Of the other lines those that are fields count. A head with more
fields than the table has room for brings the reader down.
-/

namespace Wiretap.Http

structure Status where
  code : Nat
  reason : String
  deriving DecidableEq, Repr, Inhabited

def Status.ok : Status := ⟨200, "OK"⟩

/-- Protocol version, status code and, behind a second space, the reason. -/
def status? (line : Bytes) : Option Status :=
  match Utf8.decode? (Bytes.chomp line) with
  | none => none
  | some line =>
    match line.dropWhile (· != ' ') with
    | [] => none
    | _ :: rest =>
      match Number.word16? (rest.takeWhile (· != ' ')) with
      | none => none
      | some code => some ⟨code, String.ofList ((rest.dropWhile (· != ' ')).drop 1)⟩

structure ResponseHead where
  /-- Offset of the first byte of the body. -/
  bodyStart : Nat
  status : Status
  headers : Headers
  deriving DecidableEq, Repr, Inhabited

/-- The head that all of `head` is. -/
def ResponseHead.parse (head : Bytes) : Except Crash ResponseHead :=
  let lines := Bytes.splitOn Bytes.lf head
  let fields := (lines.drop 1).filterMap field?
  if Headers.fits fields then
    .ok ⟨head.length, ((lines.head?.bind status?).getD Status.ok), ⟨fields⟩⟩
  else .error .crowdedHead

end Wiretap.Http
