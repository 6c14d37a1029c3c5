import Wiretap.Text.Utf8

/-!
# Where a head ends

A head of a request or response ends behind its first CR LF CR LF. A request
line is exactly three parts with single spaces between them; the second is the
path.
-/

namespace Wiretap.Http

def headerTerminator : Bytes := [0x0d, 0x0a, 0x0d, 0x0a]

/-- The marker that ends a chunked body, looked for as plain bytes. -/
def lastChunk : Bytes := [0x30, 0x0d, 0x0a, 0x0d, 0x0a]

/-- Length of the head at the front of `buf`, once it is all there. -/
def headerEnd (buf : Bytes) : Option Nat :=
  (Bytes.find buf headerTerminator).map (· + headerTerminator.length)

/-- The first line without its line end. -/
def firstLine (head : Bytes) : Bytes :=
  Bytes.chomp (head.takeWhile (· != Bytes.lf))

/-- Path of a request line. -/
def requestPath (head : Bytes) : Option String :=
  match Utf8.decode? (firstLine head) with
  | none => none
  | some line =>
    match Bytes.splitOn ' ' line with
    | [_, path, _] => some (String.ofList path)
    | _ => none

/-- Whether `part` stands somewhere in `text`. -/
def occursIn (part : List Char) : List Char → Bool
  | [] => part.isEmpty
  | c :: rest => part.isPrefixOf (c :: rest) || occursIn part rest

/-- Whether a path holds one of the markers of tapped requests. -/
def hasMarker (markers : List String) (path : String) : Bool :=
  markers.any fun m => occursIn m.toList path.toList

end Wiretap.Http
