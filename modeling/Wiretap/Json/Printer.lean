import Wiretap.Json.Basic
import Wiretap.Number.Shortest

/-!
# Writing JSON

Compact text: no blanks, members in the order they stand. In strings only the
quote, the backslash and control characters are escaped, with the short form
where there is one and four lower case hexadecimal digits otherwise.
-/

namespace Wiretap.Json

def hexDigit (n : Nat) : Char := Nat.digitChar (n % 16)

def escapeChar (c : Char) : List Char :=
  let n := c.toNat
  if c = '"' then ['\\', '"']
  else if c = '\\' then ['\\', '\\']
  else if 0x20 ≤ n then [c]
  else if n = 0x08 then ['\\', 'b']
  else if n = 0x09 then ['\\', 't']
  else if n = 0x0a then ['\\', 'n']
  else if n = 0x0c then ['\\', 'f']
  else if n = 0x0d then ['\\', 'r']
  else ['\\', 'u', '0', '0', hexDigit (n / 16), hexDigit n]

def quoted (s : String) : List Char := '"' :: s.toList.flatMap escapeChar ++ ['"']

def Number.chars : Json.Number → List Char
  | .int n => if n < 0 then '-' :: Number.decimal n.natAbs else Number.decimal n.natAbs
  | .double x => x.chars

mutual

def chars : Json → List Char
  | null => ['n', 'u', 'l', 'l']
  | bool true => ['t', 'r', 'u', 'e']
  | bool false => ['f', 'a', 'l', 's', 'e']
  | num n => n.chars
  | str s => quoted s
  | arr items => '[' :: itemChars items ++ [']']
  | obj members => '\x7b' :: memberChars members ++ ['\x7d']

def itemChars : List Json → List Char
  | [] => []
  | v :: rest => chars v ++ moreItemChars rest

def moreItemChars : List Json → List Char
  | [] => []
  | v :: rest => ',' :: chars v ++ moreItemChars rest

def memberChars : List (String × Json) → List Char
  | [] => []
  | (name, v) :: rest => quoted name ++ ':' :: chars v ++ moreMemberChars rest

def moreMemberChars : List (String × Json) → List Char
  | [] => []
  | (name, v) :: rest => ',' :: quoted name ++ ':' :: chars v ++ moreMemberChars rest

end

/-- The compact text of a value. -/
def text (v : Json) : String := String.ofList (chars v)

end Wiretap.Json
