import Wiretap.Text.Utf8
import Wiretap.Number.Digits

/-!
# Chunked bodies

A chunk is a line with its size in hexadecimal digits, extensions behind a
semicolon apart, then that many bytes and two more. A size of zero ends the
body. Decoding takes what has arrived: the last chunk may be cut anywhere, and
a line that gives no size stops it.
-/

namespace Wiretap.Http

inductive Chunk where
  /-- The size line that ends the body. -/
  | last
  | whole (data rest : Bytes)
  /-- What there is of a chunk behind which nothing can be read. -/
  | cut (data : Bytes)
  deriving DecidableEq, Repr

def semicolon : UInt8 := 0x3b

/-- The size on a size line. -/
def chunkSize? (line : Bytes) : Option Nat :=
  (Utf8.decode? (Bytes.trim (line.takeWhile (· != semicolon)))).bind
    (Number.unsigned? 16 Number.word64)

/-- The chunk at the front of a body. -/
def chunk (body : Bytes) : Chunk :=
  match Bytes.find body Bytes.crlf with
  | none => .cut []
  | some lineEnd =>
    match chunkSize? (body.take lineEnd) with
    | none => .cut []
    | some 0 => .last
    | some size =>
      if Number.word64 < lineEnd + 2 + size then .cut []
      else
        let data := body.drop (lineEnd + 2)
        match data.drop size with
        | _ :: _ :: rest => .whole (data.take size) rest
        | _ => .cut (data.take size)

theorem length_lt_of_chunk {body data rest : Bytes} (h : chunk body = .whole data rest) :
    rest.length < body.length := by
  unfold chunk at h
  split at h
  · cases h
  · rename_i lineEnd _
    split at h
    · cases h
    · cases h
    · rename_i size _ _
      split at h
      · cases h
      · simp only at h
        split at h
        · rename_i hd
          cases h
          have := congrArg List.length hd
          simp only [List.length_drop, List.length_cons] at this
          omega
        · cases h

def decodeChunkedFrom (acc : List Bytes) (body : Bytes) : Bytes × Bool :=
  match _h : chunk body with
  | .last => (acc.reverse.flatten, true)
  | .cut data => ((data :: acc).reverse.flatten, false)
  | .whole data rest => decodeChunkedFrom (data :: acc) rest
termination_by body.length
decreasing_by exact length_lt_of_chunk _h

/-- The data of the chunks that have arrived, and whether the body is complete. -/
def decodeChunked (body : Bytes) : Bytes × Bool := decodeChunkedFrom [] body

end Wiretap.Http
