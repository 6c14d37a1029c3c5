import Wiretap.Inflate.Huffman

/-!
# Compressed streams

A stream is a sequence of blocks, stored or coded, the last of them marked.
Coded blocks hold literal bytes and copies from the window, the last 32768
bytes put out, which is all zero before the first. Everything that can be
decoded from the bytes at hand is put out.
-/

namespace Wiretap.Inflate

inductive Ending where
  /-- The last block has ended before this bit. -/
  | finished (pos : Nat)
  /-- The source ends first. -/
  | starved
  | corrupt
  deriving Repr, DecidableEq

structure Output where
  out : ByteArray
  ending : Ending

def windowSize : Nat := 32768

def lengthBases : Array Nat :=
  #[3, 4, 5, 6, 7, 8, 9, 10, 11, 13, 15, 17, 19, 23, 27, 31, 35, 43, 51, 59, 67, 83, 99, 115, 131,
    163, 195, 227, 258]

def lengthBits : Array Nat :=
  #[0, 0, 0, 0, 0, 0, 0, 0, 1, 1, 1, 1, 2, 2, 2, 2, 3, 3, 3, 3, 4, 4, 4, 4, 5, 5, 5, 5, 0]

def distanceBases : Array Nat :=
  #[1, 2, 3, 4, 5, 7, 9, 13, 17, 25, 33, 49, 65, 97, 129, 193, 257, 385, 513, 769, 1025, 1537, 2049,
    3073, 4097, 6145, 8193, 12289, 16385, 24577]

def distanceBits : Array Nat :=
  #[0, 0, 0, 0, 1, 1, 2, 2, 3, 3, 4, 4, 5, 5, 6, 6, 7, 7, 8, 8, 9, 9, 10, 10, 11, 11, 12, 12, 13,
    13]

/-- Order in which the lengths of the code for code lengths are given. -/
def lengthOrder : List Nat := [16, 17, 18, 0, 8, 7, 9, 6, 10, 5, 11, 4, 12, 3, 13, 2, 14, 1, 15]

def fixedLiterals : Code :=
  .ofLengths (Array.replicate 144 8 ++ Array.replicate 112 9 ++ Array.replicate 24 7 ++
    Array.replicate 8 8)

def fixedDistances : Code := .ofLengths (Array.replicate 32 5)

/-- The byte put out `distance` ago. -/
def windowByte (out : ByteArray) (distance : Nat) : UInt8 :=
  if distance ≤ out.size then out.data.getD (out.size - distance) 0 else 0

def copy (out : ByteArray) (distance : Nat) : Nat → ByteArray
  | 0 => out
  | n + 1 => copy (out.push (windowByte out distance)) distance n

/-- A base value with extra bits. -/
def extended (source : ByteArray) (bases widths : Array Nat) (symbol pos : Nat) : Read Nat :=
  match bases[symbol]?, widths[symbol]? with
  | some base, some width =>
    match bits source pos width with
    | .got n pos => .got (base + n) pos
    | .starved => .starved
    | .corrupt => .corrupt
  | _, _ => .corrupt

/-- The contents of a coded block. -/
def codedBlock (source : ByteArray) (literals distances : Code) (out : ByteArray) (pos : Nat) :
    Nat → Output
  | 0 => ⟨out, .starved⟩
  | fuel + 1 =>
    match literals.read source pos with
    | .starved => ⟨out, .starved⟩
    | .corrupt => ⟨out, .corrupt⟩
    | .got symbol pos =>
      if symbol < 256 then codedBlock source literals distances (out.push symbol.toUInt8) pos fuel
      else if symbol = 256 then ⟨out, .finished pos⟩
      else
        match extended source lengthBases lengthBits (symbol - 257) pos with
        | .starved => ⟨out, .starved⟩
        | .corrupt => ⟨out, .corrupt⟩
        | .got length pos =>
          match distances.read source pos with
          | .starved => ⟨out, .starved⟩
          | .corrupt => ⟨out, .corrupt⟩
          | .got symbol pos =>
            match extended source distanceBases distanceBits symbol pos with
            | .starved => ⟨out, .starved⟩
            | .corrupt => ⟨out, .corrupt⟩
            | .got distance pos =>
              codedBlock source literals distances (copy out distance length) pos fuel

/-- The next whole byte. -/
def aligned (pos : Nat) : Nat := (pos + 7) / 8 * 8

def storedBlock (source : ByteArray) (out : ByteArray) (pos : Nat) : Output :=
  match bits source (aligned pos) 16 with
  | .starved => ⟨out, .starved⟩
  | .corrupt => ⟨out, .corrupt⟩
  | .got length pos =>
    match bits source pos 16 with
    | .starved => ⟨out, .starved⟩
    | .corrupt => ⟨out, .corrupt⟩
    | .got check pos =>
      if length + check ≠ 65535 then ⟨out, .corrupt⟩
      else
        let start := pos / 8
        let data := source.extract start (start + length)
        ⟨out ++ data, if data.size = length then .finished (pos + 8 * length) else .starved⟩

/-- The lengths of the code for code lengths. -/
def metaLengths (source : ByteArray) (lengths : Array Nat) (pos : Nat) :
    List Nat → Read (Array Nat)
  | [] => .got lengths pos
  | symbol :: rest =>
    match bits source pos 3 with
    | .got n pos => metaLengths source (lengths.setIfInBounds symbol n) pos rest
    | .starved => .starved
    | .corrupt => .corrupt

/-- Code lengths until there are `total`; 16 repeats the last one, 17 and 18 give zeros. -/
def codeLengths (source : ByteArray) (code : Code) (total : Nat) (lengths : Array Nat) (pos : Nat) :
    Nat → Read (Array Nat)
  | 0 => .corrupt
  | fuel + 1 =>
    if total < lengths.size then .corrupt
    else if lengths.size = total then .got lengths pos
    else
      match code.read source pos with
      | .starved => .starved
      | .corrupt => .corrupt
      | .got symbol pos =>
        if symbol < 16 then codeLengths source code total (lengths.push symbol) pos fuel
        else if symbol = 16 ∧ lengths.isEmpty then .corrupt
        else
          let width := if symbol = 16 then 2 else if symbol = 17 then 3 else 7
          let least := if symbol = 18 then 11 else 3
          let value := if symbol = 16 then lengths.back?.getD 0 else 0
          match bits source pos width with
          | .got n pos =>
            codeLengths source code total (lengths ++ Array.replicate (least + n) value) pos fuel
          | .starved => .starved
          | .corrupt => .corrupt

/-- The two codes of a block that brings its own. -/
def blockCodes (source : ByteArray) (pos : Nat) : Read (Code × Code) :=
  match bits source pos 14 with
  | .starved => .starved
  | .corrupt => .corrupt
  | .got n pos =>
    let literalCount := n % 32 + 257
    let distanceCount := n / 32 % 32 + 1
    let metaCount := n / 1024 + 4
    if 286 < literalCount ∨ 30 < distanceCount then .corrupt
    else
      match metaLengths source (Array.replicate 19 0) pos (lengthOrder.take metaCount) with
      | .starved => .starved
      | .corrupt => .corrupt
      | .got lengths pos =>
        let code := Code.ofLengths lengths
        if !code.isSound then .corrupt
        else
          let total := literalCount + distanceCount
          match codeLengths source code total #[] pos (total + 1) with
          | .starved => .starved
          | .corrupt => .corrupt
          | .got lengths pos =>
            let literals := Code.ofLengths (lengths.extract 0 literalCount)
            let distances := Code.ofLengths (lengths.extract literalCount total)
            if literals.isSound && distances.isSound then .got (literals, distances) pos
            else .corrupt

def block (source : ByteArray) (kind : Nat) (out : ByteArray) (pos fuel : Nat) : Output :=
  if kind = 0 then storedBlock source out pos
  else if kind = 1 then codedBlock source fixedLiterals fixedDistances out pos fuel
  else if kind = 2 then
    match blockCodes source pos with
    | .got (literals, distances) pos => codedBlock source literals distances out pos fuel
    | .starved => ⟨out, .starved⟩
    | .corrupt => ⟨out, .corrupt⟩
  else ⟨out, .corrupt⟩

def blocks (source : ByteArray) (out : ByteArray) (pos : Nat) : Nat → Output
  | 0 => ⟨out, .starved⟩
  | fuel + 1 =>
    match bits source pos 3 with
    | .starved => ⟨out, .starved⟩
    | .corrupt => ⟨out, .corrupt⟩
    | .got header pos =>
      match block source (header / 2) out pos fuel with
      | ⟨out, .finished pos⟩ =>
        if header % 2 = 1 then ⟨out, .finished pos⟩ else blocks source out pos fuel
      | ended => ended

/-- Everything a stream gives that starts at a byte of the source. -/
def inflate (source : ByteArray) (start : Nat) : Output :=
  blocks source ByteArray.empty (8 * start) (8 * source.size + 2)

end Wiretap.Inflate
