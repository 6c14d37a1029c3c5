import Wiretap.Envelope

/-!
# The outbox

Where messages are published. Without a consumer, or after it has gone, they
are dropped. Each message is one complete text.
-/

namespace Wiretap

inductive Outbox where
  | disabled
  | attached
  /-- The consumer has gone. -/
  | abandoned
  deriving DecidableEq, Repr, Inhabited

namespace Outbox

def isEnabled : Outbox → Bool
  | disabled => false
  | _ => true

/-- What the consumer gets of a message. -/
def deliver (o : Outbox) (message : String) : List String :=
  match o with
  | attached => [message]
  | _ => []

def ready (o : Outbox) : List String := o.deliver Wiretap.ready

def publish (o : Outbox) (e : Envelope) : List String := o.deliver e.text

def hangUp : Outbox → Outbox
  | attached => abandoned
  | o => o

end Outbox

end Wiretap
