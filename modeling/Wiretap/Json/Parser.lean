import Wiretap.Json.Basic
import Wiretap.Number.Digits

/-!
# Reading JSON

Blanks are space, tab, line feed and carriage return. Values nest at most 127
levels deep. A string is read one character at a time by a machine that knows
what an escape still owes; surrogates count only in pairs. A numeral without
fraction and exponent that fits 64 bits is whole, and minus zero is a double.
For any other numeral the leading digits that fit 64 bits are kept and scaled
by a power of ten. `read` keeps the members of an object as they are written;
`parse` brings them into order, and of members with one name the last counts.
-/

namespace Wiretap.Json

def isBlank (c : Char) : Bool := c == ' ' || c == '\n' || c == '\t' || c == '\r'

def skipBlank (s : List Char) : List Char := s.dropWhile isBlank

/-! ## Strings -/

/-- Where a string stands between two characters. `high` is the first half of a
surrogate pair whose second half is owed. -/
inductive StringState where
  | plain
  | escape (high : Option Nat)
  | hex (owed value : Nat) (high : Option Nat)
  | pair (high : Nat)
  deriving DecidableEq, Repr

def shortEscape? (c : Char) : Option Char :=
  if c = '"' then some '"'
  else if c = '\\' then some '\\'
  else if c = '/' then some '/'
  else if c = 'b' then some '\x08'
  else if c = 'f' then some '\x0c'
  else if c = 'n' then some '\n'
  else if c = 'r' then some '\r'
  else if c = 't' then some '\t'
  else none

/-- A finished escape of four digits: a character, or the half of a pair. -/
def codeUnit (value : Nat) (high : Option Nat) : Option (StringState × Option Char) :=
  let isHigh := 0xD800 ≤ value ∧ value < 0xDC00
  let isLow := 0xDC00 ≤ value ∧ value < 0xE000
  match high with
  | none =>
    if isHigh then some (.pair value, none)
    else if isLow then none
    else some (.plain, some (Char.ofNat value))
  | some h =>
    if isLow then
      some (.plain, some (Char.ofNat (0x10000 + (h - 0xD800) * 0x400 + (value - 0xDC00))))
    else none

/-- One character inside a string, other than the quote that ends it. -/
def StringState.step (q : StringState) (c : Char) : Option (StringState × Option Char) :=
  match q with
  | .plain =>
    if c = '\\' then some (.escape none, none)
    else if c.toNat < 0x20 then none
    else some (.plain, some c)
  | .escape none =>
    if c = 'u' then some (.hex 4 0 none, none)
    else (shortEscape? c).map fun e => (.plain, some e)
  | .escape (some h) => if c = 'u' then some (.hex 4 0 (some h), none) else none
  | .hex owed value high =>
    match Number.digit? 16 c with
    | some d => if owed ≤ 1 then codeUnit (value * 16 + d) high
                else some (.hex (owed - 1) (value * 16 + d) high, none)
    | none => none
  | .pair h => if c = '\\' then some (.escape (some h), none) else none

def stringFrom (q : StringState) (acc : List Char) : List Char → Option (List Char × List Char)
  | [] => none
  | c :: rest =>
    if q = .plain ∧ c = '"' then some (acc.reverse, rest)
    else
      match q.step c with
      | some (q, some e) => stringFrom q (e :: acc) rest
      | some (q, none) => stringFrom q acc rest
      | none => none

/-- A string behind its opening quote, and what follows its closing one. -/
def string (s : List Char) : Option (String × List Char) :=
  (stringFrom .plain [] s).map fun (cs, rest) => (String.ofList cs, rest)

/-! ## Numerals -/

def isDigit (c : Char) : Bool := '0' ≤ c && c ≤ '9'

def digitsOf (s : List Char) : List Char := s.takeWhile isDigit

def afterDigits (s : List Char) : List Char := s.dropWhile isDigit

/-- Digits appended to `value` while the result fits 64 bits, and how many did. -/
def absorb (value taken : Nat) : List Char → Nat × Nat
  | [] => (value, taken)
  | c :: rest =>
    let next := value * 10 + Number.digitValue c
    if next ≤ Number.word64 then absorb next (taken + 1) rest else (value, taken)

/-- The exponent behind its letter. -/
def exponent (s : List Char) : Option (Int × List Char) :=
  let (negative, s) :=
    match s with
    | '+' :: rest => (false, rest)
    | '-' :: rest => (true, rest)
    | s => (false, s)
  (Number.digits? 10 (digitsOf s)).map fun n =>
    (if negative then -(n : Int) else n, afterDigits s)

def scaledDouble (negative : Bool) (significand : Nat) (exponent : Int) : Option Json.Number :=
  (Number.Double.scaled significand exponent).map fun units => .double ⟨negative, units⟩

/-- What follows a significand: an exponent or nothing. -/
def withExponent (negative : Bool) (significand : Nat) (power : Int) (s : List Char) :
    Option (Json.Number × List Char) :=
  let marked :=
    match s with
    | 'e' :: rest => some rest
    | 'E' :: rest => some rest
    | _ => none
  match marked with
  | some rest =>
    (exponent rest).bind fun (e, rest) =>
      (scaledDouble negative significand (power + e)).map fun n => (n, rest)
  | none => (scaledDouble negative significand power).map fun n => (n, s)

/-- A whole numeral that fits 64 bits without its sign. -/
def whole (negative : Bool) (n : Nat) : Json.Number :=
  if !negative then .int n
  else if n = 0 ∨ 0x8000000000000000 < n then .double ⟨true, Number.Double.ofNat n⟩
  else .int (-n)

def unsignedNumeral (negative : Bool) (s : List Char) : Option (Json.Number × List Char) :=
  let digits := digitsOf s
  let rest := afterDigits s
  if digits.isEmpty || (digits.head? == some '0' && 1 < digits.length) then none
  else
    let (significand, taken) := absorb 0 0 digits
    let dropped := digits.length - taken
    match rest with
    | '.' :: rest =>
      let fraction := digitsOf rest
      if fraction.isEmpty then none
      else
        let (significand, taken) := absorb significand 0 fraction
        withExponent negative significand (dropped - taken : Int) (afterDigits rest)
    | c :: _ =>
      if c = 'e' ∨ c = 'E' ∨ dropped ≠ 0 then withExponent negative significand dropped rest
      else some (whole negative significand, rest)
    | [] =>
      if dropped ≠ 0 then withExponent negative significand dropped rest
      else some (whole negative significand, rest)

def numeral : List Char → Option (Json.Number × List Char)
  | '-' :: rest => unsignedNumeral true rest
  | s => unsignedNumeral false s

/-! ## Values -/

def maxDepth : Nat := 127

mutual

/-- A value at the front of `s`, with at most `depth` levels of nesting. -/
def value (fuel depth : Nat) (s : List Char) : Option (Json × List Char) :=
  match fuel with
  | 0 => none
  | fuel + 1 =>
    match skipBlank s with
    | 'n' :: 'u' :: 'l' :: 'l' :: rest => some (null, rest)
    | 't' :: 'r' :: 'u' :: 'e' :: rest => some (bool true, rest)
    | 'f' :: 'a' :: 'l' :: 's' :: 'e' :: rest => some (bool false, rest)
    | '"' :: rest => (string rest).map fun (s, rest) => (str s, rest)
    | '[' :: rest =>
      match depth with
      | 0 => none
      | depth + 1 =>
        match skipBlank rest with
        | ']' :: rest => some (arr [], rest)
        | rest => items fuel depth [] rest
    | '\x7b' :: rest =>
      match depth with
      | 0 => none
      | depth + 1 =>
        match skipBlank rest with
        | '\x7d' :: rest => some (obj [], rest)
        | rest => members fuel depth [] rest
    | s => (numeral s).map fun (n, rest) => (num n, rest)

/-- The items of an array from one item on; `acc` holds the earlier ones, last first. -/
def items (fuel depth : Nat) (acc : List Json) (s : List Char) : Option (Json × List Char) :=
  match fuel with
  | 0 => none
  | fuel + 1 =>
    match value fuel depth s with
    | none => none
    | some (v, rest) =>
      match skipBlank rest with
      | ',' :: rest => items fuel depth (v :: acc) rest
      | ']' :: rest => some (arr (v :: acc).reverse, rest)
      | _ => none

/-- The members of an object from one name on; `acc` holds the earlier ones, last first. -/
def members (fuel depth : Nat) (acc : Members) (s : List Char) : Option (Json × List Char) :=
  match fuel with
  | 0 => none
  | fuel + 1 =>
    match skipBlank s with
    | '"' :: rest =>
      match string rest with
      | none => none
      | some (name, rest) =>
        match skipBlank rest with
        | ':' :: rest =>
          match value fuel depth rest with
          | none => none
          | some (v, rest) =>
            match skipBlank rest with
            | ',' :: rest => members fuel depth ((name, v) :: acc) rest
            | '\x7d' :: rest => some (obj ((name, v) :: acc).reverse, rest)
            | _ => none
        | _ => none
    | _ => none

end

/-- The value that a whole text stands for, with the members as they are written. -/
def readChars (s : List Char) : Option Json :=
  match value (2 * s.length + 2) maxDepth s with
  | some (v, rest) => if (skipBlank rest).isEmpty then some v else none
  | none => none

/-- The value that a whole text stands for. -/
def parseChars (s : List Char) : Option Json := (readChars s).map canonical

def read (s : String) : Option Json := readChars s.toList

def parse (s : String) : Option Json := parseChars s.toList

end Wiretap.Json
