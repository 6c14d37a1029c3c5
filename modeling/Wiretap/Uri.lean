import Wiretap.Number.Digits
import Wiretap.Text.Utf8

/-!
# URIs

A URI is a path alone, an authority alone, or a scheme, an authority that is
not empty, a path and a query. A fragment is dropped. The scheme `http` and
its secure sister are kept in lower case, any other as it is written.

An authority ends at the first of `/`, `?` and `#`. Colons and percent signs
count only behind the last `@` and behind a bracketed part: at most one colon
may be left and no percent sign. Brackets stand at most once, and something
must follow an `@`.
-/

namespace Wiretap

inductive UriError where
  | invalidCharacter
  | invalidAuthority
  | invalidFormat
  | schemeTooLong
  | tooLong
  | empty
  deriving DecidableEq, Repr

def UriError.message : UriError → String
  | invalidCharacter => "invalid uri character"
  | invalidAuthority => "invalid authority"
  | invalidFormat => "invalid format"
  | schemeTooLong => "scheme too long"
  | tooLong => "uri too long"
  | empty => "empty string"

structure Uri where
  scheme : Option String
  /-- User information, host and port as written; empty if there is none. -/
  authority : String
  path : String
  query : Option String
  deriving DecidableEq, Repr, Inhabited

namespace Uri

def maxLength : Nat := 65534

def maxScheme : Nat := 64

def isAlnum (c : Char) : Bool :=
  ('0' ≤ c && c ≤ '9') || ('A' ≤ c && c ≤ 'Z') || ('a' ≤ c && c ≤ 'z')

/-- Characters of an authority and of the delimiters that end it. -/
def isUriChar (c : Char) : Bool :=
  isAlnum c || "!#$&'()*+,-./:;=?@[]_~".toList.contains c

def isSchemeChar (c : Char) : Bool := isAlnum c || c == '+' || c == '-' || c == '.'

def isPathChar (c : Char) : Bool :=
  let n := c.toNat
  (0x21 ≤ n && n ≤ 0x3b && n != 0x23) || n == 0x3d || (0x40 ≤ n && n ≤ 0x5f) ||
    0x61 ≤ n

def isQueryChar (c : Char) : Bool :=
  let n := c.toNat
  n == 0x21 || (0x24 ≤ n && n ≤ 0x3b) || n == 0x3d || 0x3f ≤ n

def endsAuthority (c : Char) : Bool := c == '/' || c == '?' || c == '#'

/-! ## Authorities -/

/-- What has been seen of an authority that still counts. -/
structure Seen where
  colons : Nat
  opened : Bool
  closed : Bool
  percent : Bool
  /-- The last character was an `@`. -/
  atEnd : Bool
  deriving DecidableEq, Repr

def Seen.none : Seen := ⟨0, false, false, false, false⟩

def maxColons : Nat := 8

def Seen.step (s : Seen) (c : Char) : Except UriError Seen :=
  if c = ':' then
    if maxColons ≤ s.colons then .error .invalidAuthority
    else .ok { s with colons := s.colons + 1, atEnd := false }
  else if c = '[' then
    if s.percent || s.opened then .error .invalidAuthority
    else .ok { s with opened := true, atEnd := false }
  else if c = ']' then
    if !s.opened || s.closed then .error .invalidAuthority
    else .ok { s with closed := true, colons := 0, percent := false, atEnd := false }
  else if c = '@' then .ok { s with colons := 0, percent := false, atEnd := true }
  else if c = '%' then .ok { s with percent := true, atEnd := false }
  else if isUriChar c then .ok { s with atEnd := false }
  else .error .invalidCharacter

def Seen.isSound (s : Seen) : Bool :=
  s.opened == s.closed && s.colons ≤ 1 && !s.atEnd && !s.percent

def seenIn (s : Seen) : List Char → Except UriError Seen
  | [] => .ok s
  | c :: rest =>
    match s.step c with
    | .ok s => seenIn s rest
    | .error e => .error e

/-- The authority at the front of a text, and what follows it. -/
def takeAuthority (cs : List Char) : Except UriError (List Char × List Char) :=
  let authority := cs.takeWhile (!endsAuthority ·)
  match seenIn .none authority with
  | .error e => .error e
  | .ok s =>
    if s.isSound then .ok (authority, cs.dropWhile (!endsAuthority ·)) else .error .invalidAuthority

/-! ## Paths -/

/-- Path and query of a text; a fragment is dropped. -/
def pathAndQuery (cs : List Char) : Except UriError (List Char × Option (List Char)) :=
  let path := cs.takeWhile fun c => c != '?' && c != '#'
  if !path.all isPathChar then .error .invalidCharacter
  else
    match cs.dropWhile fun c => c != '?' && c != '#' with
    | '?' :: rest =>
      let query := rest.takeWhile (· != '#')
      if query.all isQueryChar then .ok (path, some query) else .error .invalidCharacter
    | _ => .ok (path, none)

/-! ## Whole URIs -/

def lowerAscii (cs : List Char) : List Char := cs.map Char.toLower

/-- Scheme and rest of a text that starts with a scheme. -/
def takeScheme (cs : List Char) : Except UriError (Option (List Char × List Char)) :=
  if lowerAscii (cs.take 7) = "http://".toList then .ok (some ("http".toList, cs.drop 7))
  else if lowerAscii (cs.take 8) = "https://".toList then .ok (some ("https".toList, cs.drop 8))
  else
    let scheme := cs.takeWhile isSchemeChar
    match cs.dropWhile isSchemeChar with
    | ':' :: '/' :: '/' :: rest =>
      if cs.length ≤ 3 then .ok none
      else if maxScheme < scheme.length then .error .schemeTooLong
      else .ok (some (scheme, rest))
    | _ => .ok none

def ofPath (cs : List Char) : Except UriError Uri :=
  (pathAndQuery cs).map fun (path, query) =>
    ⟨none, "", String.ofList path, query.map String.ofList⟩

/-- A text that is an authority and nothing else. -/
def ofAuthority (cs : List Char) (otherwise : UriError) : Except UriError Uri :=
  match takeAuthority cs with
  | .error e => .error e
  | .ok (authority, rest) =>
    if rest.isEmpty then .ok ⟨none, String.ofList authority, "", none⟩ else .error otherwise

def ofScheme (scheme cs : List Char) : Except UriError Uri :=
  if cs.isEmpty then .error .empty
  else
    match takeAuthority cs with
    | .error e => .error e
    | .ok (authority, rest) =>
      if authority.isEmpty then .error .invalidFormat
      else
        (pathAndQuery rest).map fun (path, query) =>
          ⟨some (String.ofList scheme), String.ofList authority, String.ofList path,
            query.map String.ofList⟩

def parseChars (cs : List Char) : Except UriError Uri :=
  if maxLength < (Utf8.encodeChars cs).length then .error .tooLong
  else
    match cs with
    | [] => .error .empty
    | ['*'] => .ok ⟨none, "", "*", none⟩
    | '/' :: rest => ofPath ('/' :: rest)
    | [c] => if c.toNat < 0x80 then ofAuthority [c] .invalidCharacter else .error .invalidCharacter
    | cs =>
      match takeScheme cs with
      | .error e => .error e
      | .ok (some (scheme, rest)) => ofScheme scheme rest
      | .ok none => ofAuthority cs .invalidFormat

def parse (s : String) : Except UriError Uri := parseChars s.toList

/-! ## Parts -/

/-- What follows the last separator, or all of a text without one. -/
def behindLast (sep : Char) (cs : List Char) : List Char :=
  (cs.reverse.takeWhile (· != sep)).reverse

/-- What comes before the last separator, if there is one. -/
def beforeLast? (sep : Char) (cs : List Char) : Option (List Char) :=
  match cs.reverse.dropWhile (· != sep) with
  | [] => none
  | _ :: front => some front.reverse

/-- The host with its brackets. -/
def host? (u : Uri) : Option (List Char) :=
  if u.authority.isEmpty then none
  else
    let hostPort := behindLast '@' u.authority.toList
    match hostPort with
    | '[' :: _ => some (hostPort.takeWhile (· != ']') ++ [']'])
    | _ => some (hostPort.takeWhile (· != ':'))

/-- The number behind the last colon, if it is a port. -/
def port? (u : Uri) : Option Nat :=
  match beforeLast? ':' u.authority.toList with
  | some _ => Number.word16? (behindLast ':' u.authority.toList)
  | none => none

def userInfo? (u : Uri) : Option (List Char) := beforeLast? '@' u.authority.toList

/-- The URI as text; an empty path behind a scheme is written `/`. -/
def text (u : Uri) : String :=
  let front :=
    match u.scheme with
    | some s => s ++ "://"
    | none => ""
  let path := if u.path.isEmpty && u.scheme.isSome then "/" else u.path
  let query :=
    match u.query with
    | some q => "?" ++ q
    | none => ""
  front ++ u.authority ++ path ++ query

end Uri

end Wiretap
