/-!
# Canonical Huffman codes

A code is given by the length of each symbol's code word; words of one length
are consecutive and follow those of shorter lengths, in the order of the
symbols. A code word is read bit by bit, most significant bit first, from a
source whose bytes give their least significant bit first.
-/

namespace Wiretap.Inflate

/-- What reading something at a bit position may come to. -/
inductive Read (α : Type) where
  | got (value : α) (pos : Nat)
  /-- The source ends before it. -/
  | starved
  | corrupt
  deriving Repr

def bitAt (source : ByteArray) (pos : Nat) : Option Nat :=
  if h : pos / 8 < source.size then some (source[pos / 8].toNat >>> (pos % 8) % 2) else none

def bitsFrom (source : ByteArray) (weight value pos : Nat) : Nat → Read Nat
  | 0 => .got value pos
  | n + 1 =>
    match bitAt source pos with
    | some b => bitsFrom source (weight * 2) (value + b * weight) (pos + 1) n
    | none => .starved

/-- A number of `n` bits, least significant bit first. -/
def bits (source : ByteArray) (pos n : Nat) : Read Nat := bitsFrom source 1 0 pos n

structure Code where
  /-- How many code words there are of each length from 0 to 15. -/
  counts : Array Nat
  /-- The symbols by length and then by value. -/
  symbols : Array Nat
  deriving Repr, Inhabited

def maxBits : Nat := 15

def symbolsOfLength (lengths : Array Nat) (n : Nat) : List Nat :=
  (List.range lengths.size).filter fun s => lengths.getD s 0 == n

def lengthsUpTo : List Nat := (List.range maxBits).map (· + 1)

def Code.ofLengths (lengths : Array Nat) : Code where
  counts := ((0 :: lengthsUpTo.map fun n => (symbolsOfLength lengths n).length)).toArray
  symbols := (lengthsUpTo.flatMap (symbolsOfLength lengths)).toArray

/-- Share of the code space that the words take, of `2 ^ 15`. -/
def Code.space (c : Code) : Nat :=
  lengthsUpTo.foldl (fun share n => share + c.counts.getD n 0 <<< (maxBits - n)) 0

/-- Every word is of use, or there is at most one. -/
def Code.isSound (c : Code) : Bool := c.space == 1 <<< maxBits || c.symbols.size ≤ 1

def Code.readFrom (c : Code) (source : ByteArray) (pos length word first index : Nat) :
    Nat → Read Nat
  | 0 => .corrupt
  | fuel + 1 =>
    match bitAt source pos with
    | none => .starved
    | some b =>
      let word := word + b
      let count := c.counts.getD length 0
      if word < first + count then
        match c.symbols[index + (word - first)]? with
        | some s => .got s (pos + 1)
        | none => .corrupt
      else
        c.readFrom source (pos + 1) (length + 1) (word * 2) ((first + count) * 2) (index + count)
          fuel

/-- The symbol whose code word stands at `pos`. -/
def Code.read (c : Code) (source : ByteArray) (pos : Nat) : Read Nat :=
  c.readFrom source pos 1 0 0 0 maxBits

end Wiretap.Inflate
