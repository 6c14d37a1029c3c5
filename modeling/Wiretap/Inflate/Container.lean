import Wiretap.Inflate.Stream
import Wiretap.Text.Utf8

/-!
# Compressed bodies

The two containers of a compressed stream. Without a sound header nothing comes
out; a stream cut short gives what could be decoded so far; a corrupt one gives
the windows that were full before the fault. A checksum at the end of the first
container is not held against the data; that of the second is part of its
stream.
-/

namespace Wiretap.Inflate

/-- What is kept of an output. -/
def Output.kept (o : Output) : ByteArray :=
  match o.ending with
  | .corrupt => o.out.extract 0 (o.out.size / windowSize * windowSize)
  | _ => o.out

def byteAt (source : ByteArray) (i : Nat) : Nat := (source.data.getD i 0).toNat

/-- Offset behind the next zero byte. -/
def behindZero (source : ByteArray) (i : Nat) : Nat → Option Nat
  | 0 => none
  | fuel + 1 =>
    if h : i < source.size then
      if source[i] = 0 then some (i + 1) else behindZero source (i + 1) fuel
    else none

/-- Longest name or comment in a header. -/
def maxHeaderField : Nat := 65535

def behindText (source : ByteArray) (i : Nat) : Option Nat :=
  match behindZero source i (source.size + 1) with
  | some j => if j ≤ i + maxHeaderField + 1 then some j else none
  | none => none

def crcByte (crc : Nat) (b : Nat) : Nat :=
  (List.range 8).foldl (fun c _ => if c % 2 = 1 then (c / 2) ^^^ 0xEDB88320 else c / 2) (crc ^^^ b)

/-- The cyclic checksum of the first `n` bytes. -/
def crc32 (source : ByteArray) (n : Nat) : Nat :=
  ((source.extract 0 n).data.foldl (fun c b => crcByte c b.toNat) 0xFFFFFFFF) ^^^ 0xFFFFFFFF

/-- Length of a gzip header with its optional parts, if it is sound. -/
def gzipHeader? (source : ByteArray) : Option Nat :=
  if source.size < 10 then none
  else if byteAt source 0 ≠ 0x1f ∨ byteAt source 1 ≠ 0x8b ∨ byteAt source 2 ≠ 8 then none
  else
    let flags := byteAt source 3
    if 32 ≤ flags then none
    else
      let behindExtra :=
        if flags / 4 % 2 = 1 then
          if source.size < 12 then none
          else
            let behind := 12 + byteAt source 10 + 256 * byteAt source 11
            if behind ≤ source.size then some behind else none
        else some 10
      let behindName :=
        behindExtra.bind fun i => if flags / 8 % 2 = 1 then behindText source i else some i
      let behindComment :=
        behindName.bind fun i => if flags / 16 % 2 = 1 then behindText source i else some i
      behindComment.bind fun i =>
        if flags / 2 % 2 = 1 then
          if i + 2 ≤ source.size ∧
              byteAt source i + 256 * byteAt source (i + 1) = crc32 source i % 65536 then
            some (i + 2)
          else none
        else some i

def toArray (s : Bytes) : ByteArray := ⟨s.toArray⟩

/-- The data of a gzip body. -/
def gunzip (payload : Bytes) : Bytes :=
  let source := toArray payload
  match gzipHeader? source with
  | some start => (inflate source start).kept.data.toList
  | none => []

def isGzip : Bytes → Bool
  | 0x1f :: 0x8b :: _ => true
  | _ => false

/-- Whether the first two bytes announce a stream without a preset dictionary. -/
def zlibHeader (source : ByteArray) : Bool :=
  let method := byteAt source 0
  let flags := byteAt source 1
  2 ≤ source.size && (256 * method + flags) % 31 == 0 && flags / 32 % 2 == 0 &&
    method % 16 == 8 && method / 16 ≤ 7

def adler32 (data : ByteArray) : Nat :=
  let (a, b) := data.data.foldl
    (fun (a, b) d => ((a + d.toNat) % 65521, (b + (a + d.toNat) % 65521) % 65521)) (1, 0)
  65536 * b + a

/-- A stream whose checksum is there and wrong is corrupt. -/
def checked (source : ByteArray) (o : Output) : Output :=
  match o.ending with
  | .finished pos =>
    let i := aligned pos / 8
    let sum := ((byteAt source i * 256 + byteAt source (i + 1)) * 256 + byteAt source (i + 2)) * 256 +
      byteAt source (i + 3)
    if i + 4 ≤ source.size ∧ sum ≠ adler32 o.out then ⟨o.out, .corrupt⟩ else o
  | _ => o

/-- The data of a zlib body. -/
def unzlib (payload : Bytes) : Bytes :=
  let source := toArray payload
  if zlibHeader source then (checked source (inflate source 2)).kept.data.toList else []

end Wiretap.Inflate
