import Wiretap.Tunnel.Clock
import Wiretap.Tunnel.Exchange

/-!
# Relays

What is read from one side of a tunnel is sent to the other. A blind relay sends
it as it is; a tapped one lets the interceptor see it. A run is a list of reads,
in the order in which they happen on either side, and `Output` is what comes of
it.
-/

namespace Wiretap.Tunnel

inductive Side where
  | client
  | origin
  deriving DecidableEq, Repr, Inhabited

/-- Bytes read from one side. -/
structure Read where
  side : Side
  bytes : Bytes
  /-- The moment by the idle clock. -/
  moment : Moment
  /-- Seconds by the calendar, as they are published. -/
  time : Number.Double
  deriving DecidableEq, Repr, Inhabited

structure Output where
  toClient : Bytes
  toOrigin : Bytes
  published : List Envelope
  deriving Repr, Inhabited

namespace Output

def none : Output := ⟨[], [], []⟩

def append (a b : Output) : Output :=
  ⟨a.toClient ++ b.toClient, a.toOrigin ++ b.toOrigin, a.published ++ b.published⟩

instance : Append Output := ⟨append⟩

end Output

inductive Relay (σ : Type) where
  | blind
  | tapped (exchange : Exchange σ)

namespace Relay

variable {σ : Type}

/-- Passes on one read. -/
def pass (i : Interceptor σ) (relay : Relay σ) (r : Read) : Except Crash (Output × Relay σ) :=
  match relay, r.side with
  | .blind, .client => .ok (⟨[], r.bytes, []⟩, .blind)
  | .blind, .origin => .ok (⟨r.bytes, [], []⟩, .blind)
  | .tapped e, .client =>
    let (bytes, e) := e.fromClient i r.time r.bytes
    .ok (⟨[], bytes, []⟩, .tapped e)
  | .tapped e, .origin => do
    let (published, e) ← e.fromOrigin i r.bytes
    return (⟨r.bytes, [], published⟩, .tapped e)

end Relay

end Wiretap.Tunnel

namespace Wiretap

/-- A relay with its clock. -/
structure Tunnel (σ : Type) where
  clock : Tunnel.Clock
  relay : Tunnel.Relay σ

namespace Tunnel

variable {σ : Type}

/-- One read: the wait for it has a deadline, and its bytes are passed on. -/
def step (i : Interceptor σ) (t : Tunnel σ) (r : Read) : Except Crash (Output × Tunnel σ) := do
  let _ ← t.clock.deadline
  let (output, relay) ← t.relay.pass i r
  return (output, ⟨t.clock.touch r.moment, relay⟩)

def run (i : Interceptor σ) (t : Tunnel σ) : List Read → Except Crash (Output × Tunnel σ)
  | [] => .ok (.none, t)
  | r :: rest => do
    let (output, t) ← t.step i r
    let (outputs, t) ← t.run i rest
    return (output ++ outputs, t)

end Tunnel

end Wiretap
