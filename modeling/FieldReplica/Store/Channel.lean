/-!
# Notification channels

A channel keeps the events that were sent, in order. A listener is a place in that order. The newest
events, as many as the channel holds, can still be received; a listener that is further behind is
told how many it lost and goes on with the ones that are kept.
-/
namespace FieldReplica

/-- The events sent so far, oldest first, and how many are asked to be kept. -/
structure Channel (ε : Type) where
  capacity : Nat
  log : List ε
deriving DecidableEq

/-- The place of a listener: the number of events before the next one that it receives. -/
structure Listener where
  place : Nat
deriving DecidableEq, Repr

namespace Channel

variable {ε : Type}

/-- What a listener receives. -/
inductive Received (ε : Type) where
  | lagged (skipped : Nat)
  | event (e : ε)
deriving DecidableEq

def create (capacity : Nat) : Channel ε := ⟨capacity, []⟩

/-- The least power of two that is not below `n`, found by doubling `p` at most `fuel` times. -/
def powerAbove (n : Nat) : Nat → Nat → Nat
  | 0, p => p
  | fuel + 1, p => if n ≤ p then p else powerAbove n fuel (2 * p)

/-- How many events are kept: the capacity, at least one, rounded up to a power of two. -/
def kept (c : Channel ε) : Nat := powerAbove (max c.capacity 1) (c.capacity.log2 + 1) 1

def send (c : Channel ε) (e : ε) : Channel ε := { c with log := c.log ++ [e] }

def sendAll (c : Channel ε) (es : List ε) : Channel ε := { c with log := c.log ++ es }

def listen (c : Channel ε) : Listener := ⟨c.log.length⟩

def receive (c : Channel ε) (l : Listener) : List (Received ε) :=
  let pending := c.log.drop l.place
  let lost := pending.length - c.kept
  (if lost = 0 then [] else [.lagged lost]) ++ (pending.drop lost).map .event

end Channel
end FieldReplica
