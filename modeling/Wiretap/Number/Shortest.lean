import Wiretap.Number.Double
import Wiretap.Number.Digits

/-!
# The shortest decimal of a double

The reals that round to a magnitude form an interval around it, ends included
when the magnitude is an even multiple of its grid. Of the decimals in that
interval the shortest is written, of two equally short ones the nearer to the
magnitude, and of two equally near ones the even.

A number is written positionally from 1e-5 up to 1e16, with at least one digit
behind the point, and otherwise with an exponent that carries its sign.
-/

namespace Wiretap.Number

/-- `digits` times ten to the `exponent`. -/
structure Decimal where
  digits : Nat
  exponent : Int
  deriving DecidableEq, Repr, Inhabited

namespace Double

/-- Twice the ends of the interval of reals that round to `units`, doubled
once more so that a quarter of a grid step is whole. -/
def lowEnd (units : Nat) : Nat :=
  let step := grid units
  if 1 < step ∧ units = Nat.pow 2 units.log2 then 4 * units - step else 4 * units - 2 * step

def highEnd (units : Nat) : Nat := 4 * units + 2 * grid units

def isEven (units : Nat) : Bool := units / grid units % 2 == 0

/-- Whether `num / den` units round to `units`. -/
def covers (units num den : Nat) : Bool :=
  let low := lowEnd units * den
  let high := highEnd units * den
  if isEven units then low ≤ 4 * num && 4 * num ≤ high else low < 4 * num && 4 * num < high

/-- Power of ten of the leading digit of a positive magnitude. -/
def magnitude (units : Nat) : Int :=
  if one ≤ units then (decimal (units / one)).length - 1 else -(decimal (one / units)).length

/-- The decimal with its last digit at `10 ^ exponent` that stands for `units`, if one does. -/
def decimalAt (units : Nat) (exponent : Int) : Option Nat :=
  let scale := Nat.pow 10 exponent.natAbs
  let num := if 0 ≤ exponent then units else units * scale
  let den := if 0 ≤ exponent then one * scale else one
  let below := num / den
  let rest := num % den
  let covered (digits : Nat) : Bool :=
    if 0 ≤ exponent then covers units (digits * scale * one) 1
    else covers units (digits * one) scale
  match covered below, covered (below + 1) with
  | true, true =>
    if 2 * rest < den then some below
    else if den < 2 * rest then some (below + 1)
    else some (below + below % 2)
  | true, false => some below
  | false, true => some (below + 1)
  | false, false => none

def shortestFrom (units : Nat) (exponent : Int) : Nat → Decimal
  | 0 => ⟨(decimalAt units exponent).getD 0, exponent⟩
  | n + 1 =>
    match decimalAt units exponent with
    | some digits => ⟨digits, exponent⟩
    | none => shortestFrom units (exponent - 1) n

/-- The shortest decimal that reads back as a positive magnitude. -/
def shortest (units : Nat) : Decimal := shortestFrom units (magnitude units) 17

def zeros (n : Nat) : List Char := List.replicate n '0'

/-- Digits with the point behind the first `point` of them. -/
def written (digits : List Char) (point : Int) : List Char :=
  if 0 < point ∧ point ≤ 16 then
    let whole := digits.take point.toNat
    let rest := digits.drop point.toNat
    whole ++ zeros (point.toNat - whole.length) ++ '.' :: (if rest.isEmpty then ['0'] else rest)
  else if -5 < point ∧ point ≤ 0 then
    '0' :: '.' :: zeros point.natAbs ++ digits
  else
    let power := point - 1
    digits.take 1 ++ (if digits.length ≤ 1 then [] else '.' :: digits.drop 1) ++
      'e' :: (if power < 0 then '-' else '+') :: decimal power.natAbs

def trimZeros (digits : List Char) : List Char :=
  (digits.reverse.dropWhile (· == '0')).reverse

/-- The text of a double. -/
def chars (x : Double) : List Char :=
  let sign := if x.negative then ['-'] else []
  if x.units = 0 then sign ++ ['0', '.', '0']
  else
    let d := shortest x.units
    let digits := decimal d.digits
    sign ++ written (trimZeros digits) (digits.length + d.exponent)

end Double

end Wiretap.Number
