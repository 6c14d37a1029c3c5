/-!
# Byte strings

What travels on a connection is a list of bytes. `find` looks for the first
occurrence of a non-empty byte string, `splitOn` cuts at every separator and
always yields at least one piece, and `trim` removes ASCII blanks from both
ends.
-/

namespace Wiretap

abbrev Bytes := List UInt8

namespace Bytes

def cr : UInt8 := 0x0d

def lf : UInt8 := 0x0a

def crlf : Bytes := [0x0d, 0x0a]

def space : UInt8 := 0x20

def colon : UInt8 := 0x3a

def findFrom (needle : Bytes) (i : Nat) : Bytes → Option Nat
  | [] => none
  | b :: rest => if needle.isPrefixOf (b :: rest) then some i else findFrom needle (i + 1) rest

/-- Offset of the first occurrence of `needle`; the empty needle occurs nowhere. -/
def find (haystack needle : Bytes) : Option Nat :=
  if needle.isEmpty then none else findFrom needle 0 haystack

/-- The pieces between the separators, in order. -/
def splitOn {α : Type} [BEq α] (sep : α) (s : List α) : List (List α) :=
  match _h : s.dropWhile (· != sep) with
  | [] => [s]
  | _ :: rest => s.takeWhile (· != sep) :: splitOn sep rest
termination_by s.length
decreasing_by
  have : (s.dropWhile (· != sep)).length ≤ s.length := (List.dropWhile_sublist _).length_le
  rw [_h] at this
  simp only [List.length_cons] at this
  omega

/-- A line without the carriage return that may end it. -/
def chomp (line : Bytes) : Bytes :=
  match line.getLast? with
  | some b => if b = cr then line.dropLast else line
  | none => line

/-- Space, tab, line feed, form feed and carriage return. -/
def isBlank (b : UInt8) : Bool :=
  b == 0x20 || b == 0x09 || b == 0x0a || b == 0x0c || b == 0x0d

def trim (s : Bytes) : Bytes :=
  ((s.dropWhile isBlank).reverse.dropWhile isBlank).reverse

def lowerByte (b : UInt8) : UInt8 :=
  if 0x41 ≤ b && b ≤ 0x5a then b + 0x20 else b

/-- ASCII letters in lower case, every other byte as it is. -/
def lower (s : Bytes) : Bytes := s.map lowerByte

end Bytes

end Wiretap
