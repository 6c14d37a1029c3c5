/-!
# Numerals

An unsigned numeral is one or more digits of its base behind at most one plus
sign, and no more than its limit.
-/

namespace Wiretap.Number

def digitValue (c : Char) : Nat :=
  let n := c.toNat
  if 0x30 ≤ n ∧ n ≤ 0x39 then n - 0x30
  else if 0x61 ≤ n ∧ n ≤ 0x7a then n - 0x61 + 10
  else if 0x41 ≤ n ∧ n ≤ 0x5a then n - 0x41 + 10
  else 36

def digit? (base : Nat) (c : Char) : Option Nat :=
  if digitValue c < base then some (digitValue c) else none

def digitsFrom (base value : Nat) : List Char → Option Nat
  | [] => some value
  | c :: rest =>
    match digit? base c with
    | some d => digitsFrom base (value * base + d) rest
    | none => none

/-- The value of a non-empty run of digits. -/
def digits? (base : Nat) : List Char → Option Nat
  | [] => none
  | cs => digitsFrom base 0 cs

/-- An unsigned numeral not above `limit`. -/
def unsigned? (base limit : Nat) (cs : List Char) : Option Nat :=
  let digits :=
    match cs with
    | '+' :: rest => rest
    | cs => cs
  match digits? base digits with
  | some n => if n ≤ limit then some n else none
  | none => none

/-- The largest number of 16 bits. -/
def word16 : Nat := 0xffff

/-- The largest number of 64 bits. -/
def word64 : Nat := 0xffffffffffffffff

/-- A decimal numeral of a port or a status. -/
def word16? (cs : List Char) : Option Nat := unsigned? 10 word16 cs

def word64? (cs : List Char) : Option Nat := unsigned? 10 word64 cs

/-- A natural number in decimal digits. -/
def decimal (n : Nat) : List Char := Nat.toDigits 10 n

end Wiretap.Number
