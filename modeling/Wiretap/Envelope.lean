import Wiretap.Report
import Wiretap.Json.Parser

/-!
# Envelopes

One published observation: the interceptor's report with the time of its
request, or the error that the origin answered a request with. An envelope is
written as a JSON object with its fields in a fixed order. It is read from an
object: first as data, then as an error, by the members known to each;
unknown members do not matter, and no known member may stand twice. Inside an
envelope a record may also be written as the list of its fields.
-/

namespace Wiretap

/-- Published once connections are accepted. -/
def ready : String := "READY"

inductive Envelope where
  | data (ts : Number.Double) (report : Report)
  | error (error : Bool) (status : Nat) (message : String) (done : Bool)
  deriving Repr, Inhabited

namespace Envelope

/-- The envelope for a status of 400 or above. -/
def ofStatus (code : Nat) (reason : String) : Envelope :=
  .error true code (String.ofList (Number.decimal code) ++ " " ++ reason) true

def isDone : Envelope → Bool
  | data _ report => report.done
  | error _ _ _ done => done

def toJson : Envelope → Json
  | data ts report => .obj [("ts", .num (.double ts)), ("data", report.toJson)]
  | error e status message done =>
    .obj [("error", .bool e), ("status", .ofNat status), ("message", .str message),
      ("done", .bool done)]

/-- The text that is published. -/
def text (e : Envelope) : String := e.toJson.text

/-! ## Reading -/

def occurrences (name : String) (members : Json.Members) : Nat :=
  (members.filter fun m => m.1 == name).length

/-- The members of these names, each of which stands exactly once. -/
def membersNamed (names : List String) (members : Json.Members) : Option (List Json) :=
  if names.all fun n => occurrences n members == 1 then names.mapM fun n => members.lookup n
  else none

/-- A record written as an object or as the list of its fields. -/
def recordOf (names : List String) : Json → Option (List Json)
  | .obj members => membersNamed names members
  | .arr items => if items.length = names.length then some items else none
  | _ => none

def callOf (v : Json) : Option FunctionCall :=
  match recordOf ["name", "params"] v with
  | some [.str name, params] => some ⟨name, params.canonical⟩
  | _ => none

def reportOf (v : Json) : Option Report :=
  match recordOf ["reason", "body", "function", "done"] v with
  | some [.str reason, .str body, .arr calls, .bool done] =>
    (calls.mapM callOf).map fun calls => ⟨reason, body, calls, done⟩
  | _ => none

def dataOf (members : Json.Members) : Option Envelope :=
  match membersNamed ["ts", "data"] members with
  | some [ts, report] =>
    match ts.double?, reportOf report with
    | some ts, some report => some (.data ts report)
    | _, _ => none
  | _ => none

def errorOf (members : Json.Members) : Option Envelope :=
  match membersNamed ["error", "status", "message", "done"] members with
  | some [.bool e, status, .str message, .bool done] =>
    match status.nat? with
    | some code => if code ≤ Number.word16 then some (.error e code message done) else none
    | none => none
  | _ => none

/-- The envelope that a JSON value stands for, with its members as written. -/
def ofJson : Json → Option Envelope
  | .obj members => (dataOf members).or (errorOf members)
  | _ => none

def parse (s : String) : Option Envelope := (Json.read s).bind ofJson

end Envelope

end Wiretap
