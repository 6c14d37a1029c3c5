import Wiretap.Envelope
import Wiretap.Http.Head
import Wiretap.Interceptor

/-!
# Tapped exchanges

The state of one decrypted connection. A read from the client in which a head
ends is a request; if its path holds a marker it is tapped: the interceptor is
reset and may replace what follows the head in that read. While the last request
was a tapped one, every read from the origin is observed: an error status is
published once, and otherwise the interceptor is shown the body so far and its
report is published with the time of the request. Reads from the origin pass as
they are. What was gathered of a response is forgotten at the marker that ends
a chunked body.
-/

namespace Wiretap.Tunnel

/-- What has come of a response. -/
structure Response where
  buffer : Bytes
  /-- The head, once it is complete. -/
  head : Option Http.ResponseHead
  /-- Its error status has been published. -/
  reported : Bool
  deriving DecidableEq, Repr, Inhabited

namespace Response

def fresh : Response := ⟨[], none, false⟩

/-- Looks for the head unless it is known. -/
def findHead (r : Response) : Except Crash Response :=
  match r.head, Http.headerEnd r.buffer with
  | none, some n => (Http.ResponseHead.parse (r.buffer.take n)).map fun h => { r with head := some h }
  | _, _ => .ok r

/-- Adds what was read. -/
def append (r : Response) (chunk : Bytes) : Except Crash Response :=
  findHead { r with buffer := r.buffer ++ chunk }

/-- Whether the end of a chunked body came with the last `n` bytes. -/
def ends (r : Response) (n : Nat) : Bool :=
  let recent := r.buffer.drop (r.buffer.length - (n + (Http.lastChunk.length - 1)))
  (Bytes.find recent Http.lastChunk).isSome

end Response

structure Exchange (σ : Type) where
  host : String
  /-- Parts of a path that mark a request to be tapped. -/
  markers : List String
  /-- The last request was a tapped one. -/
  tapping : Bool
  /-- When the last tapped request was read. -/
  requested : Number.Double
  /-- State of the interceptor. -/
  state : σ
  response : Response

namespace Exchange

variable {σ : Type}

def fresh (i : Interceptor σ) (host : String) (markers : List String) : Exchange σ :=
  ⟨host, markers, false, .zero, i.start, .fresh⟩

/-- Starts tapping a request whose path is known; the bytes to send for its body. -/
def tap (i : Interceptor σ) (e : Exchange σ) (now : Number.Double) (path : String) (body : Bytes) :
    Bytes × Exchange σ :=
  let (result, state) := i.request (i.reset e.state) body e.host path
  (result.toOption.getD body, { e with tapping := true, requested := now, state })

/-- A read from the client: the bytes to send on. -/
def fromClient (i : Interceptor σ) (e : Exchange σ) (now : Number.Double) (chunk : Bytes) :
    Bytes × Exchange σ :=
  match Http.headerEnd chunk with
  | none => (chunk, e)
  | some n =>
    match Http.requestPath (chunk.take n) with
    | none => (chunk, e)
    | some path =>
      if Http.hasMarker e.markers path then
        let (body, e) := e.tap i now path (chunk.drop n)
        (chunk.take n ++ body, e)
      else (chunk, { e with tapping := false })

/-- What is published of the response so far. -/
def observe (i : Interceptor σ) (e : Exchange σ) : List Envelope × Exchange σ :=
  match e.response.head with
  | none => ([], e)
  | some head =>
    if 400 ≤ head.status.code then
      if e.response.reported then ([], e)
      else
        ([.ofStatus head.status.code head.status.reason],
          { e with response := { e.response with reported := true } })
    else
      let body := e.response.buffer.drop head.bodyStart
      match i.response e.state body e.host "" head.headers with
      | (.ok report, state) => ([.data e.requested report], { e with state })
      | (.error _, state) => ([], { e with state })

/-- A read from the origin: what is published of it. -/
def fromOrigin (i : Interceptor σ) (e : Exchange σ) (chunk : Bytes) :
    Except Crash (List Envelope × Exchange σ) :=
  match e.response.append chunk with
  | .error crash => .error crash
  | .ok response =>
    let e := { e with response }
    let (published, e) := if e.tapping then e.observe i else ([], e)
    .ok (published, if e.response.ends chunk.length then { e with response := .fresh } else e)

end Exchange

end Wiretap.Tunnel
