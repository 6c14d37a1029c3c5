import Wiretap.Number.Digits
import Wiretap.Text.Utf8

/-!
# Addresses

Literals of IPv4 and IPv6 addresses as they are commonly written, the older
numeric forms of IPv4 that name resolution knows without asking anyone, and
the text of a host with a port.
-/

namespace Wiretap.Net

inductive Address where
  | v4 (octets : Bytes)
  | v6 (octets : Bytes)
  deriving DecidableEq, Repr, Inhabited

def Address.octets : Address → Bytes
  | v4 octets => octets
  | v6 octets => octets

/-- A number from 0 to 255 in at most three digits without a leading zero. -/
def octet? (cs : List Char) : Option UInt8 :=
  if 3 < cs.length || (1 < cs.length && cs.head? == some '0') then none
  else
    match Number.digits? 10 cs with
    | some n => if n < 256 then some n.toUInt8 else none
    | none => none

def v4? (cs : List Char) : Option Bytes :=
  match Bytes.splitOn '.' cs with
  | [a, b, c, d] => [a, b, c, d].mapM octet?
  | _ => none

/-- The two bytes of a group of one to four hexadecimal digits. -/
def group? (cs : List Char) : Option Bytes :=
  if 4 < cs.length then none
  else (Number.digits? 16 cs).map fun n => [(n / 256).toUInt8, (n % 256).toUInt8]

/-- The bytes of groups between colons; the last may be an IPv4 address. -/
def groups? (allowV4 : Bool) : List (List Char) → Option Bytes
  | [] => some []
  | [last] =>
    match group? last with
    | some bytes => some bytes
    | none => if allowV4 then v4? last else none
  | g :: rest =>
    match group? g, groups? allowV4 rest with
    | some bytes, some more => some (bytes ++ more)
    | _, _ => none

def groupsOf (allowV4 : Bool) (cs : List Char) : Option Bytes :=
  if cs.isEmpty then some [] else groups? allowV4 (Bytes.splitOn ':' cs)

/-- The parts around the first double colon. -/
def splitDouble (before : List Char) : List Char → Option (List Char × List Char)
  | ':' :: ':' :: rest => some (before.reverse, rest)
  | c :: rest => splitDouble (c :: before) rest
  | [] => none

def v6? (cs : List Char) : Option Bytes :=
  match splitDouble [] cs with
  | none =>
    match groups? true (Bytes.splitOn ':' cs) with
    | some bytes => if bytes.length = 16 then some bytes else none
    | none => none
  | some (front, back) =>
    match groupsOf false front, groupsOf true back with
    | some front, some back =>
      if front.length + back.length ≤ 14 then
        some (front ++ List.replicate (16 - front.length - back.length) 0 ++ back)
      else none
    | _, _ => none

/-- The address that a literal denotes. -/
def Address.parse? (s : String) : Option Address :=
  match v4? s.toList with
  | some octets => some (.v4 octets)
  | none => (v6? s.toList).map .v6

/-! ## Numeric forms -/

/-- A part in decimal, octal behind `0` or hexadecimal behind `0x`. -/
def part? (cs : List Char) : Option Nat :=
  match cs with
  | '0' :: 'x' :: rest => Number.digits? 16 rest
  | '0' :: 'X' :: rest => Number.digits? 16 rest
  | '0' :: c :: rest => Number.digits? 8 (c :: rest)
  | cs => Number.digits? 10 cs

/-- The address of up to four parts: each but the last is one byte, the last fills the rest. -/
def joinParts : Nat → List Nat → Option Nat
  | room, [last] => if last < Nat.pow 256 room then some last else none
  | room + 1, n :: rest =>
    if n < 256 then (joinParts room rest).map (n * Nat.pow 256 room + ·) else none
  | _, _ => none

/-- The IPv4 address of a numeric form. -/
def numeric? (s : String) : Option Address :=
  match (Bytes.splitOn '.' s.toList).mapM part? with
  | some parts =>
    (joinParts 4 parts).map fun n =>
      .v4 [(n / 16777216).toUInt8, (n / 65536 % 256).toUInt8, (n / 256 % 256).toUInt8,
        (n % 256).toUInt8]
  | none => none

/-! ## Hosts with ports -/

/-- Host and port, with brackets around a host that has colons. -/
def hostPort (host : String) (port : Nat) : String :=
  let port := String.ofList (Number.decimal port)
  if host.toList.contains ':' then "[" ++ host ++ "]:" ++ port else host ++ ":" ++ port

/-- A host without leading `[` and trailing `]`. -/
def unbracket (cs : List Char) : List Char :=
  ((cs.dropWhile (· == '[')).reverse.dropWhile (· == ']')).reverse

end Wiretap.Net
