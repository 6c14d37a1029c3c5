import Wiretap.Number.Double

/-!
# JSON values

Numbers are whole, within 64 bits signed or unsigned, or doubles. The members
of an object stand in the order of their names and no name stands twice:
`insert` puts a member where it belongs, in place of an earlier one of its
name.
-/

namespace Wiretap

inductive Json.Number where
  | int (n : Int)
  | double (x : Number.Double)
  deriving DecidableEq, Repr

inductive Json where
  | null
  | bool (b : Bool)
  | num (n : Json.Number)
  | str (s : String)
  | arr (items : List Json)
  | obj (members : List (String × Json))
  deriving Repr, Inhabited, BEq

namespace Json

abbrev Members := List (String × Json)

/-- Adds a member, replacing one of the same name. -/
def insert (name : String) (value : Json) : Members → Members
  | [] => [(name, value)]
  | (n, v) :: rest =>
    if name < n then (name, value) :: (n, v) :: rest
    else if n < name then (n, v) :: insert name value rest
    else (name, value) :: rest

mutual

/-- The value with all members in order, of several with one name the last. -/
def canonical : Json → Json
  | arr items => arr (canonicalItems items)
  | obj members => obj (canonicalMembers [] members)
  | v => v

def canonicalItems : List Json → List Json
  | [] => []
  | v :: rest => canonical v :: canonicalItems rest

def canonicalMembers (acc : Members) : List (String × Json) → Members
  | [] => acc
  | (name, v) :: rest => canonicalMembers (insert name (canonical v) acc) rest

end

def ofInt (n : Int) : Json := .num (.int n)

def ofNat (n : Nat) : Json := .num (.int n)

def isNull : Json → Bool
  | null => true
  | _ => false

def isString : Json → Bool
  | str _ => true
  | _ => false

def isArray : Json → Bool
  | arr _ => true
  | _ => false

def items? : Json → Option (List Json)
  | arr items => some items
  | _ => none

def text? : Json → Option String
  | str s => some s
  | _ => none

def bool? : Json → Option Bool
  | bool b => some b
  | _ => none

def nat? : Json → Option Nat
  | num (.int n) => if 0 ≤ n then some n.toNat else none
  | _ => none

/-- The number as a double. -/
def double? : Json → Option Wiretap.Number.Double
  | num (.int n) => some (Number.Double.ofInt n)
  | num (.double x) => some x
  | _ => none

/-- The member of an object. -/
def member? (name : String) : Json → Option Json
  | obj members => members.lookup name
  | _ => none

/-- The item of an array. -/
def item? (i : Nat) : Json → Option Json
  | arr items => items[i]?
  | _ => none

end Json

end Wiretap
