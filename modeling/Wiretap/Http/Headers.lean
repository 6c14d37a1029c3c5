import Std.Data.HashSet.Basic
import Wiretap.Text.Utf8

/-!
# Header fields

A field is a name, a token kept in lower case, and a value of visible bytes,
blanks and bytes above 0x7f. Fields stand in order of arrival. A table has room
for `capacity` different names: a field may be added only while fewer are
there, whether or not its own name is new.
-/

namespace Wiretap.Http

structure Field where
  name : Bytes
  value : Bytes
  deriving DecidableEq, Repr, Inhabited

structure Headers where
  fields : List Field
  deriving DecidableEq, Repr, Inhabited

/-- Digits, letters and ! # $ % & ' * + - . ^ _ ` | ~ -/
def isTokenByte (b : UInt8) : Bool :=
  (0x30 ≤ b && b ≤ 0x39) || (0x41 ≤ b && b ≤ 0x5a) || (0x61 ≤ b && b ≤ 0x7a) ||
    b ∈ [0x21, 0x23, 0x24, 0x25, 0x26, 0x27, 0x2a, 0x2b, 0x2d, 0x2e, 0x5e, 0x5f, 0x60, 0x7c, 0x7e]

def maxNameLength : Nat := 65535

/-- A field name in lower case, if it is one. -/
def fieldName? (name : Bytes) : Option Bytes :=
  if !name.isEmpty && name.length ≤ maxNameLength && name.all isTokenByte then
    some (Bytes.lower name)
  else none

def isValueByte (b : UInt8) : Bool := (0x20 ≤ b && b != 0x7f) || b == 0x09

def fieldValue? (value : Bytes) : Option Bytes :=
  if value.all isValueByte then some value else none

/-- The field on a line: a name, a colon and a value, with blanks around both. -/
def field? (line : Bytes) : Option Field :=
  match (Bytes.chomp line).dropWhile (· != Bytes.colon) with
  | [] => none
  | _ :: value =>
    match fieldName? (Bytes.trim ((Bytes.chomp line).takeWhile (· != Bytes.colon))),
      fieldValue? (Bytes.trim value) with
    | some name, some value => some ⟨name, value⟩
    | _, _ => none

namespace Headers

def capacity : Nat := 24576

/-- Count of the different names. -/
def distinct (fields : List Field) : Nat := (Std.HashSet.ofList (fields.map (·.name))).size

/-- Whether each of the fields, added in order, finds room. -/
def fits (fields : List Field) : Bool :=
  fields.length ≤ capacity || distinct fields.dropLast < capacity

def values (h : Headers) (name : Bytes) : List Bytes :=
  h.fields.filterMap fun f => if f.name = name then some f.value else none

def first? (h : Headers) (name : Bytes) : Option Bytes := (h.values name).head?

/-- A value as text, if all of it is visible ASCII, spaces and tabs. -/
def visible? (value : Bytes) : Option (List Char) :=
  if value.all fun b => (0x20 ≤ b && b < 0x7f) || b == 0x09 then
    some (value.map fun b => Char.ofNat b.toNat)
  else none

end Headers

end Wiretap.Http
