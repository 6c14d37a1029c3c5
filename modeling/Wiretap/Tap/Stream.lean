import Wiretap.Http.Body
import Wiretap.Interceptor
import Wiretap.Json.Parser
import Wiretap.Tap.Arguments
import Wiretap.Tap.Frame

/-!
# The stream tap

The interceptor for streamed model output. Each call takes the whole body so
far, undoes its framing and compression, and reads the frames of its text that
were not read before. A frame holds a payload; its length tells answer text,
reasoning text and function calls apart. Text that has grown beyond the backlog
limit without a frame is dropped with an error. The text of a complete stream
is written to the log directory once, if that is wanted.
-/

namespace Wiretap.Tap

/-- What a frame says. -/
inductive Finding where
  | answer (text : String)
  | reasoning (text : String)
  | call (call : FunctionCall)
  | nothing
  deriving Repr, Inhabited

def Finding.ofCall (items : List Json) : Finding :=
  match items with
  | .str name :: rest => .call ⟨name, .obj (arguments (rest.head?.getD .null))⟩
  | _ => .nothing

def Finding.ofText (text : Json) (f : String → Finding) : Finding :=
  match text with
  | .str s => f s
  | _ => .nothing

def Finding.ofPayload (payload : List Json) : Finding :=
  match payload with
  | [_, text] => .ofText text .answer
  | [_, .null, _, _, _, _, _, _, _, _, .arr items] => .ofCall items
  | _ :: text :: _ :: _ => .ofText text .reasoning
  | _ => .nothing

/-- What a frame says, given as JSON: its payload is the first item of its first item. -/
def Finding.ofFrame (frame : Json) : Finding :=
  match (frame.item? 0).bind (·.item? 0) with
  | some (.arr payload) => .ofPayload payload
  | _ => .nothing

/-- What a frame says; a frame that is no JSON says nothing. -/
def Finding.ofBytes (frame : Bytes) : Finding :=
  match (Utf8.decode? frame).bind Json.parseChars with
  | some v => .ofFrame v
  | none => .nothing

/-- Adds a call unless the same one is there. -/
def addCall (calls : List FunctionCall) (call : FunctionCall) : List FunctionCall :=
  if calls.any (FunctionCall.same call) then calls else calls ++ [call]

structure Stream where
  /-- Texts of complete streams are written to the log directory. -/
  dumping : Bool
  /-- The log directory cannot be made. -/
  blocked : Bool
  /-- Bytes of text that are done with. -/
  scanned : Nat
  /-- The function calls of this exchange. -/
  calls : List FunctionCall
  /-- The text of this exchange has been written. -/
  dumped : Bool
  /-- The texts in the log directory. -/
  saved : List Bytes
  deriving Repr, Inhabited

namespace Stream

def fresh (dumping blocked : Bool) : Stream := ⟨dumping, blocked, 0, [], false, []⟩

def reset (s : Stream) : Stream := { s with scanned := 0, calls := [], dumped := false }

/-- Texts and calls gathered from frames. -/
structure Gathered where
  reason : String
  body : String
  calls : List FunctionCall
  deriving Repr, Inhabited

def Gathered.add (g : Gathered) : Finding → Gathered
  | .answer text => { g with body := g.body ++ text }
  | .reasoning text => { g with reason := g.reason ++ text }
  | .call call => { g with calls := addCall g.calls call }
  | .nothing => g

/-- Most bytes of text that may wait for a frame. -/
def maxBacklog : Nat := 10 * 1024 * 1024

/-- Where reading a text goes on: behind what was read, or at its start if no
character of it starts there. -/
def resume (scanned : Nat) (text : Bytes) : Nat :=
  match text.drop scanned with
  | [] => if text.length = scanned then scanned else 0
  | b :: _ => if Utf8.isContinuation b then 0 else scanned

def backlogError (n : Nat) : Error :=
  .interceptor (toString n ++ " bytes without a complete frame, dropping them")

/-- Reads the frames of a text that are new. -/
def read (s : Stream) (text : Bytes) : Except Error Gathered × Stream :=
  let start := resume s.scanned text
  let pending := text.drop start
  if maxBacklog < pending.length then
    (.error (backlogError pending.length), { s with scanned := text.length })
  else
    let found := scan pending
    let g := (found.frames.map Finding.ofBytes).foldl Gathered.add ⟨"", "", s.calls⟩
    (.ok g, { s with scanned := start + found.consumed, calls := g.calls })

/-- Writes a text once it is complete. -/
def dump (s : Stream) (text : Bytes) (done : Bool) : Stream :=
  if done && s.dumping && !s.dumped then
    { s with dumped := true, saved := if s.blocked then s.saved else s.saved ++ [text] }
  else s

/-- The text of a body so far, and whether the body is complete. -/
def content (body : Bytes) (headers : Http.Headers) : Bytes × Bool :=
  let (payload, done) := Http.unframe body headers
  (Utf8.validPart (Http.decompress payload headers), done)

def response (s : Stream) (body : Bytes) (headers : Http.Headers) : Except Error Report × Stream :=
  let (text, done) := content body headers
  match s.read text with
  | (.error e, s) => (.error e, s)
  | (.ok g, s) => (.ok ⟨g.reason, g.body, g.calls, done⟩, s.dump text done)

/-- The stock interceptor: requests pass as they are. -/
def interceptor (dumping blocked : Bool) : Interceptor Stream where
  start := fresh dumping blocked
  reset := reset
  request s body _ _ := (.ok body, s)
  response s body _ _ headers := s.response body headers

end Stream

end Wiretap.Tap
