import Wiretap.Json.Printer

/-!
# Reports

What an interceptor made of a response so far. Texts are what no earlier report
of the exchange gave; function calls are all of the exchange.
-/

namespace Wiretap

/-- A function call requested by the model, with its decoded arguments. -/
structure FunctionCall where
  name : String
  params : Json
  deriving Repr, Inhabited

structure Report where
  reason : String
  body : String
  function : List FunctionCall
  done : Bool
  deriving Repr, Inhabited

/-- Whether two calls are the same call: equal names and equal texts of the arguments. -/
def FunctionCall.same (a b : FunctionCall) : Bool :=
  a.name == b.name && a.params.chars == b.params.chars

def FunctionCall.toJson (call : FunctionCall) : Json :=
  .obj [("name", .str call.name), ("params", call.params)]

/-- The fields in the order they are published. -/
def Report.toJson (r : Report) : Json :=
  .obj [("reason", .str r.reason), ("body", .str r.body),
    ("function", .arr (r.function.map FunctionCall.toJson)), ("done", .bool r.done)]

end Wiretap
