import Wiretap.Net.Target
import Wiretap.Text.Blank

/-!
# The request for a tunnel

A client asks with one line, `CONNECT` and a target, and headers that nobody
reads. The line ends at the first line feed. The headers end behind an empty
line, whether lines end with CR LF or LF alone, and after 8192 bytes at the
latest; what follows them belongs to the tunnel.

A stream is what the client has sent. A `closed` stream will not grow, and its
end is the end of a line and of headers too.
-/

namespace Wiretap.Tunnel

/-- The answer to a request that is granted. -/
def established : Bytes := Utf8.encode "HTTP/1.1 200 Connection Established\r\n\r\n"

/-- Most bytes in the line of a request. -/
def maxLine : Nat := 8192

/-- Most bytes read at a time, and most bytes of headers that are skipped. -/
def chunkSize : Nat := 8192

/-- The first line of a stream, without its end, and what follows it. -/
def readLine (closed : Bool) (stream : Bytes) : Except Error (Bytes × Bytes) :=
  let line := stream.takeWhile (· != Bytes.lf)
  let rest := stream.dropWhile (· != Bytes.lf)
  if maxLine < line.length then .error (.invalidRequest "request line too long")
  else if rest.isEmpty && !closed then
    .error (.invalidRequest "no request line before the idle timeout")
  else .ok (line, rest.drop 1)

/-- What a line asks for. -/
def target (line : Bytes) : Except Error Net.Target :=
  let line := Text.trimChars (Utf8.decodeLossy line)
  match Bytes.splitOn ' ' line with
  | method :: target :: _ =>
    if method = "CONNECT".toList then Net.Target.parse (String.ofList target)
    else .error (.invalidRequest ("unsupported method " ++ String.ofList method))
  | _ =>
    .error (.invalidRequest ("malformed request line " ++ Text.quote (String.ofList line)))

/-- Whether headers end here, given backwards. -/
def endsHeaders : Bytes → Bool
  | 0x0a :: 0x0d :: 0x0a :: 0x0d :: _ => true
  | 0x0a :: 0x0a :: _ => true
  | _ => false

/-- Skips headers of which `n` bytes have been read; `before` is what has been, last byte first. -/
def skipFrom (closed : Bool) (before : Bytes) (n : Nat) : Bytes → Option Bytes
  | [] => if closed || endsHeaders before || chunkSize ≤ n then some [] else none
  | b :: rest =>
    if endsHeaders before || chunkSize ≤ n then some (b :: rest)
    else skipFrom closed (b :: before) (n + 1) rest

/-- What follows the headers, which begin behind the end of the request's line. -/
def skipHeaders (closed : Bool) (stream : Bytes) : Option Bytes :=
  skipFrom closed Bytes.crlf.reverse 0 stream

/-- The reads in which a stream arrives that is sent at once. -/
def reads (stream : Bytes) : List Bytes :=
  if _h : stream = [] then []
  else stream.take chunkSize :: reads (stream.drop chunkSize)
termination_by stream.length
decreasing_by
  have : 0 < stream.length := List.length_pos_iff.mpr _h
  simp only [List.length_drop, chunkSize]
  omega

end Wiretap.Tunnel
