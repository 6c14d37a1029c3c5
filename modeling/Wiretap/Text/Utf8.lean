import Wiretap.Bytes

/-!
# UTF-8

A machine that reads one byte at a time. Between characters it holds nothing;
inside one it holds the bytes still owed, the range the next byte must lie in,
and the value so far. A text is valid up to the last point between characters
that the machine reaches. Reading leniently replaces each run of bytes that
began a character but did not finish it, and each byte that begins none, by
U+FFFD.
-/

namespace Wiretap.Utf8

structure Partial where
  owed : Nat
  low : Nat
  high : Nat
  value : Nat
  deriving DecidableEq, Repr

inductive Step where
  | char (c : Char)
  | more (p : Partial)
  | refused
  deriving DecidableEq, Repr

/-- The first byte of a character. -/
def lead (b : UInt8) : Step :=
  let n := b.toNat
  if n < 0x80 then .char (Char.ofNat n)
  else if n < 0xC2 then .refused
  else if n < 0xE0 then .more ⟨1, 0x80, 0xBF, n - 0xC0⟩
  else if n = 0xE0 then .more ⟨2, 0xA0, 0xBF, 0⟩
  else if n = 0xED then .more ⟨2, 0x80, 0x9F, 0xD⟩
  else if n < 0xF0 then .more ⟨2, 0x80, 0xBF, n - 0xE0⟩
  else if n = 0xF0 then .more ⟨3, 0x90, 0xBF, 0⟩
  else if n < 0xF4 then .more ⟨3, 0x80, 0xBF, n - 0xF0⟩
  else if n = 0xF4 then .more ⟨3, 0x80, 0x8F, 4⟩
  else .refused

/-- A later byte of a character. -/
def Partial.feed (p : Partial) (b : UInt8) : Step :=
  let n := b.toNat
  if p.low ≤ n ∧ n ≤ p.high then
    let value := p.value * 64 + (n - 0x80)
    if p.owed ≤ 1 then .char (Char.ofNat value) else .more ⟨p.owed - 1, 0x80, 0xBF, value⟩
  else .refused

def step : Option Partial → UInt8 → Step
  | none, b => lead b
  | some p, b => p.feed b

/-- `good` is the count of bytes up to the last point between characters, `seen` of all read. -/
def validLengthFrom (q : Option Partial) (seen good : Nat) : Bytes → Nat
  | [] => good
  | b :: rest =>
    match step q b with
    | .char _ => validLengthFrom none (seen + 1) (seen + 1) rest
    | .more p => validLengthFrom (some p) (seen + 1) good rest
    | .refused => good

/-- Length of the longest valid text at the front of `s`. -/
def validLength (s : Bytes) : Nat := validLengthFrom none 0 0 s

/-- The longest valid text at the front of `s`, as bytes. -/
def validPart (s : Bytes) : Bytes := s.take (validLength s)

def decodeFrom (q : Option Partial) (acc : List Char) : Bytes → Option (List Char)
  | [] => if q.isNone then some acc.reverse else none
  | b :: rest =>
    match step q b with
    | .char c => decodeFrom none (c :: acc) rest
    | .more p => decodeFrom (some p) acc rest
    | .refused => none

/-- The characters of a valid text. -/
def decode? (s : Bytes) : Option (List Char) := decodeFrom none [] s

def text? (s : Bytes) : Option String := (decode? s).map String.ofList

def replacement : Char := '\uFFFD'

def decodeLossyFrom (q : Option Partial) (acc : List Char) : Bytes → List Char
  | [] => (if q.isSome then replacement :: acc else acc).reverse
  | b :: rest =>
    match step q b with
    | .char c => decodeLossyFrom none (c :: acc) rest
    | .more p => decodeLossyFrom (some p) acc rest
    | .refused =>
      let acc := replacement :: acc
      if q.isNone then decodeLossyFrom none acc rest
      else
        match lead b with
        | .char c => decodeLossyFrom none (c :: acc) rest
        | .more p => decodeLossyFrom (some p) acc rest
        | .refused => decodeLossyFrom none (replacement :: acc) rest

/-- The characters of any byte string, read leniently. -/
def decodeLossy (s : Bytes) : List Char := decodeLossyFrom none [] s

def textLossy (s : Bytes) : String := String.ofList (decodeLossy s)

/-- The bytes of one character, fewest first. -/
def encodeChar (c : Char) : Bytes :=
  let n := c.toNat
  if n < 0x80 then [n.toUInt8]
  else if n < 0x800 then [(0xC0 + n / 0x40).toUInt8, (0x80 + n % 0x40).toUInt8]
  else if n < 0x10000 then
    [(0xE0 + n / 0x1000).toUInt8, (0x80 + n / 0x40 % 0x40).toUInt8, (0x80 + n % 0x40).toUInt8]
  else
    [(0xF0 + n / 0x40000).toUInt8, (0x80 + n / 0x1000 % 0x40).toUInt8,
      (0x80 + n / 0x40 % 0x40).toUInt8, (0x80 + n % 0x40).toUInt8]

def encodeChars (cs : List Char) : Bytes := cs.flatMap encodeChar

def encode (s : String) : Bytes := encodeChars s.toList

/-- A byte that continues a character. -/
def isContinuation (b : UInt8) : Bool := 0x80 ≤ b && b < 0xC0

end Wiretap.Utf8
