import Wiretap.Crash

/-!
# The idle clock

A tunnel ends when neither side has sent anything for the idle limit. The
clock remembers the moment of the last traffic, and every wait for more begins
by computing when it will end. Moments are seconds, of which the clock can
tell those up to 2^63 - 1.
-/

namespace Wiretap.Tunnel

/-- Seconds since the clock began. -/
abbrev Moment := Nat

/-- The largest number of 63 bits. -/
def lastMoment : Moment := 0x7fffffffffffffff

structure Clock where
  /-- Seconds without traffic that are allowed. -/
  limit : Option Nat
  /-- The moment of the last traffic. -/
  last : Moment
  deriving DecidableEq, Repr, Inhabited

namespace Clock

/-- A moment so many seconds later. -/
def after (moment : Moment) (seconds : Nat) : Except Crash Moment :=
  if moment + seconds ≤ lastMoment then .ok (moment + seconds) else .error .clockOverflow

/-- When a wait that begins now ends for want of traffic, if it ever does. -/
def deadline (c : Clock) : Except Crash (Option Moment) :=
  match c.limit with
  | none => .ok none
  | some seconds => (after c.last seconds).map some

def touch (c : Clock) (now : Moment) : Clock := { c with last := now }

end Clock

end Wiretap.Tunnel
