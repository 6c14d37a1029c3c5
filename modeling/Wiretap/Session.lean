import Wiretap.Server

/-!
# Sessions

One client, from the first byte that it sends. The server reads the request off
the front of the client's stream, and the answer of a proxy off the front of
the other one. What is left of both is the relay's, which reads from either
side in turns of any size; a turn in which nothing is read, because a side has
ended or both have been idle, is the last one.
-/

namespace Wiretap

namespace Tunnel

/-- What the two sides send and the relay has not read. -/
structure Unread where
  client : Bytes
  origin : Bytes
  deriving DecidableEq, Repr, Inhabited

/-- A turn of the relay: how much of a side's bytes are there to be read. -/
structure Turn where
  side : Side
  count : Nat
  /-- The moment by the idle clock. -/
  moment : Moment
  /-- Seconds by the calendar. -/
  time : Number.Double
  deriving DecidableEq, Repr, Inhabited

namespace Unread

/-- What a turn reads, and what it leaves. -/
def next (u : Unread) (t : Turn) : Read × Unread :=
  let n := min t.count chunkSize
  match t.side with
  | .client =>
    (⟨.client, u.client.take n, t.moment, t.time⟩, { u with client := u.client.drop n })
  | .origin =>
    (⟨.origin, u.origin.take n, t.moment, t.time⟩, { u with origin := u.origin.drop n })

/-- The reads of all turns up to the last, and what they leave. -/
def reads (u : Unread) : List Turn → List Read × Unread
  | [] => ([], u)
  | t :: rest =>
    let (r, u') := u.next t
    if r.bytes.isEmpty then ([], u)
    else
      let (reads, u'') := u'.reads rest
      (r :: reads, u'')

end Unread

end Tunnel

/-- A client, by all that it will ever send. -/
structure Client where
  /-- In plain text, its request first. -/
  plain : Bytes
  /-- Its stream ends behind that. -/
  closes : Bool
  /-- The TLS handshake that it makes. -/
  hello : Server.Hello
  /-- What it sends inside TLS. -/
  secured : Bytes
  deriving DecidableEq, Repr, Inhabited

/-- What a session has come to. -/
structure Session (σ : Type) where
  opening : Server.Opening
  /-- The tunnel, if the origin has been reached, as it was made. -/
  tunnel : Option (Tunnel σ)
  /-- What the relay has sent and published, and the tunnel behind that. -/
  relayed : Option (Except Crash (Tunnel.Output × Tunnel σ))
  unread : Tunnel.Unread

namespace Server

variable {σ : Type}

/-- A session whose relay never began. -/
def Opening.alone (o : Opening) : Session σ := ⟨o, none, none, ⟨[], []⟩⟩

/-- A session with a client after these turns of its relay, which begins at the moment `now`. -/
def session (s : Server) (net : Net.Network) (i : Interceptor σ) (c : Client)
    (now : Tunnel.Moment) (turns : List Tunnel.Turn) : Session σ × Server :=
  match s.grant c.closes c.plain with
  | (.error e, s) => (Opening.alone ⟨[], none, none, .error e⟩, s)
  | (.ok g, s) =>
    let opening := s.carryOut net c.closes c.hello g
    match opening.result with
    | .error _ => (opening.alone, s)
    | .ok (socket, ahead) =>
      let client := if opening.alpn.isSome then c.secured else ahead
      let (reads, unread) := Tunnel.Unread.reads ⟨client, socket.incoming⟩ turns
      let tunnel := s.tunnel i g.target.host now
      (⟨opening, some tunnel, some (tunnel.run i reads), unread⟩, s)

end Server

end Wiretap
