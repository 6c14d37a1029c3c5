/-!
# Double precision numbers

A finite double is a sign and a magnitude counted in units of 2^-1074, the
smallest step there is. Magnitudes of 54 or more bits lie on a coarser grid,
so that 53 bits remain. Rounding goes to the nearest point of the grid and a
tie to the even one.
-/

namespace Wiretap.Number

structure Double where
  negative : Bool
  units : Nat
  deriving DecidableEq, Repr, Inhabited

namespace Double

/-- Units in the number one. -/
def one : Nat := Nat.pow 2 1074

/-- The least magnitude that is too large. -/
def overflow : Nat := Nat.pow 2 2098

/-- Distance between neighbours at a magnitude. -/
def grid (units : Nat) : Nat := Nat.pow 2 (units.log2 - 52)

/-- The grid point nearest to `num / den` units, the even one of two. -/
def round (num den : Nat) : Nat :=
  let width := den * grid (num / den)
  let below := num / width
  let rest := num % width
  let chosen :=
    if 2 * rest < width then below
    else if width < 2 * rest then below + 1
    else below + below % 2
  chosen * grid (num / den)

/-- Magnitude of a natural number. -/
def ofNat (n : Nat) : Nat := round (n * one) 1

def mul (a b : Nat) : Nat := round (a * b) one

def div (a b : Nat) : Nat := round (a * one) b

/-- `significand` times ten to the `exponent`, as one product or quotient with a
power of ten that was itself rounded, and none if that is too large. Below
1e-308 the quotient is taken in two steps. -/
def scaled (significand : Nat) (exponent : Int) : Option Nat :=
  let start := ofNat significand
  let step := exponent.natAbs
  if 0 ≤ exponent then
    if significand = 0 then some 0
    else if 308 < step then none
    else
      let product := mul start (ofNat (Nat.pow 10 step))
      if product < overflow then some product else none
  else if step ≤ 308 then some (div start (ofNat (Nat.pow 10 step)))
  else if step ≤ 616 then
    some (div (div start (ofNat (Nat.pow 10 308))) (ofNat (Nat.pow 10 (step - 308))))
  else some 0

def zero : Double := ⟨false, 0⟩

/-- The double nearest to an integer. -/
def ofInt (n : Int) : Double := ⟨n < 0, ofNat n.natAbs⟩

/-- The number one. -/
def isOne (x : Double) : Bool := !x.negative && x.units == one

end Double

end Wiretap.Number
