import Wiretap.Number.Digits
import Wiretap.Text.Utf8

/-!
# Percent encoding

A percent sign with two hexadecimal digits stands for a byte; any other
percent sign stands for itself.
-/

namespace Wiretap.Text

def percent : UInt8 := 0x25

def hexByte? (a b : UInt8) : Option UInt8 :=
  match Number.digit? 16 (Char.ofNat a.toNat), Number.digit? 16 (Char.ofNat b.toNat) with
  | some a, some b => some (16 * a + b).toUInt8
  | _, _ => none

def percentDecode : Bytes → Bytes
  | [] => []
  | a :: rest =>
    match rest with
    | b :: c :: more =>
      if a = percent then
        match hexByte? b c with
        | some d => d :: percentDecode more
        | none => a :: percentDecode (b :: c :: more)
      else a :: percentDecode (b :: c :: more)
    | rest => a :: percentDecode rest

/-- A text with its percent signs decoded and read leniently. -/
def percentDecoded (s : String) : String := Utf8.textLossy (percentDecode (Utf8.encode s))

end Wiretap.Text
