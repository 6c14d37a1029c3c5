import Wiretap.Json.Basic

/-!
# Arguments of a function call

Arguments come as a list of pairs of a name and a typed value, within up to
nine further lists. The length of a typed value tells its type: 1 null,
2 number, 3 string, 4 boolean, 5 object, 6 array. Items of an array are typed
values too, within any number of one-item lists; whatever fits no rule stands
for itself.
-/

namespace Wiretap.Tap

/-- The levels at which a list of pairs is looked for. -/
def maxLevels : Nat := 10

/-- Whether a list starts with a pair that has a name. -/
def isParamList : List Json → Bool
  | .arr (.str _ :: _ :: _) :: _ => true
  | _ => false

def isOne : Json → Bool
  | .num (.int n) => n == 1
  | .num (.double x) => x.isOne
  | .bool b => b
  | _ => false

mutual

/-- The arguments in a list of pairs, or in the list that is its first item, and so on. -/
def params (levels : Nat) (args : Json) : Json.Members :=
  match args with
  | .arr items => if levels = 0 then [] else paramsIn levels items
  | _ => []

def paramsIn (levels : Nat) (items : List Json) : Json.Members :=
  match items with
  | [] => []
  | first :: rest =>
    if isParamList (first :: rest) then paramList [] (first :: rest) else params (levels - 1) first

/-- The arguments in a list of pairs; what is no pair with a name is left out. -/
def paramList (acc : Json.Members) (pairs : List Json) : Json.Members :=
  match pairs with
  | [] => acc
  | .arr (.str name :: v :: _) :: rest => paramList (Json.insert name (typed v) acc) rest
  | _ :: rest => paramList acc rest

/-- A typed value. -/
def typed (v : Json) : Json :=
  match v with
  | .arr [_] => .null
  | .arr [_, b] => b
  | .arr [_, _, c] => c
  | .arr [_, _, _, d] => .bool (isOne d)
  | .arr [_, _, _, _, e] => .obj (params maxLevels e)
  | .arr [_, _, _, _, _, .arr items] => .arr (arrayItems items)
  | .arr [_, _, _, _, _, _] => .arr []
  | v => v

def arrayItems (items : List Json) : List Json :=
  match items with
  | [] => []
  | v :: rest => arrayItem v :: arrayItems rest

/-- An item of an array. -/
def arrayItem (v : Json) : Json :=
  match v with
  | .arr items =>
    if isParamList items then .obj (paramList [] items)
    else
      match items with
      | [] => .null
      | [a] => if a.isArray then arrayItem a else .null
      | [a, b] => if a.isArray then arrayItem a else b
      | [a, _, c] => if a.isArray then arrayItem a else c
      | [a, _, _, d] => if a.isArray then arrayItem a else .bool (isOne d)
      | [_, _, _, _, e] => .obj (params maxLevels e)
      | [_, _, _, _, _, .arr items] => .arr (arrayItems items)
      | [_, _, _, _, _, _] => .arr []
      | a :: _ => if a.isArray then arrayItem a else v
  | v => v

end

/-- The decoded arguments of a call. -/
def arguments (args : Json) : Json.Members := params maxLevels args

end Wiretap.Tap
