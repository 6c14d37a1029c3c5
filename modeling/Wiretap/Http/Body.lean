import Wiretap.Http.Chunked
import Wiretap.Http.Head
import Wiretap.Http.Response
import Wiretap.Text.Blank
import Wiretap.Inflate.Container

/-!
# Bodies of responses

A body is framed by chunks if a Transfer-Encoding names them, else by a
Content-Length, else it never is complete. Its first Content-Encoding says how
it is compressed; without one the first two bytes may. An encoding that is not
known leaves the body as it is.
-/

namespace Wiretap.Http

def transferEncoding : Bytes := Utf8.encode "transfer-encoding"

def contentLength : Bytes := Utf8.encode "content-length"

def contentEncoding : Bytes := Utf8.encode "content-encoding"

def Headers.isChunked (h : Headers) : Bool :=
  (h.values transferEncoding).any fun v =>
    (Headers.visible? v).any fun cs => occursIn "chunked".toList (cs.map Char.toLower)

def Headers.length? (h : Headers) : Option Nat :=
  ((h.first? contentLength).bind Headers.visible?).bind fun cs =>
    Number.word64? (Text.trimChars cs)

/-- The payload that has arrived, and whether it is complete. -/
def unframe (body : Bytes) (h : Headers) : Bytes × Bool :=
  if h.isChunked then decodeChunked body
  else
    match h.length? with
    | some n => (body.take n, n ≤ body.length)
    | none => (body, false)

inductive Coding where
  | gzip
  | zlib
  | plain
  deriving DecidableEq, Repr

def Coding.named (name : String) : Coding :=
  if name = "gzip" ∨ name = "x-gzip" then gzip
  else if name = "deflate" then zlib
  else plain

def coding (payload : Bytes) (h : Headers) : Coding :=
  match (h.first? contentEncoding).bind Headers.visible? with
  | some cs => .named (String.ofList ((Text.trimChars cs).map Char.toLower))
  | none => if Inflate.isGzip payload then .gzip else .plain

/-- A payload without its compression, as far as it goes. -/
def decompress (payload : Bytes) (h : Headers) : Bytes :=
  match coding payload h with
  | .gzip => Inflate.gunzip payload
  | .zlib => Inflate.unzlib payload
  | .plain => payload

end Wiretap.Http
