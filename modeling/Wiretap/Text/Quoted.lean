import Wiretap.Text.Unprintable

/-!
# Quoted texts

A text between double quotes on one line of visible characters. Quote and
backslash stand behind a backslash, NUL, tab, line feed and carriage return have
letters of their own, and any other character that is not printable is written
by its number in hexadecimal digits.
-/

namespace Wiretap.Text

/-- Hexadecimal digits in lower case. -/
def hexDigits (n : Nat) : List Char := Nat.toDigits 16 n

/-- A character inside a quoted text. -/
def quoteChar (c : Char) : List Char :=
  match c with
  | '\x00' => ['\\', '0']
  | '\t' => ['\\', 't']
  | '\n' => ['\\', 'n']
  | '\r' => ['\\', 'r']
  | '"' => ['\\', '"']
  | '\\' => ['\\', '\\']
  | c => if isPrintable c then [c] else ['\\', 'u', '\x7b'] ++ hexDigits c.toNat ++ ['\x7d']

def quote (s : String) : String :=
  String.ofList ('"' :: s.toList.flatMap quoteChar ++ ['"'])

end Wiretap.Text
