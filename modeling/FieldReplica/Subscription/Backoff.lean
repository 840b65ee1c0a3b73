/-!
# Waiting before the next attempt

Spans of time to the nanosecond, which stop at a greatest span, and the policy that says how long to
wait after each failure in a row: twice as long as before, up to a limit.
-/
namespace FieldReplica

/-- A span of time. -/
structure Duration where
  nanos : Nat
deriving DecidableEq, Repr, Inhabited

namespace Duration

/-- The greatest span: one nanosecond less than `2 ^ 64` seconds. -/
def max : Duration := ⟨UInt64.size * 1000000000 - 1⟩

def ofMillis (ms : Nat) : Duration := ⟨ms * 1000000⟩

def millis (d : Duration) : Nat := d.nanos / 1000000

def shorter (a b : Duration) : Duration := if b.nanos < a.nanos then b else a

/-- A span taken `n` times, at most the greatest span. -/
def times (d : Duration) (n : Nat) : Duration := shorter ⟨d.nanos * n⟩ max

end Duration

/-- How to wait between attempts and how many failures in a row to take. -/
structure ReconnectPolicy where
  baseDelay : Duration
  maxDelay : Duration
  maxAttempts : Nat
deriving DecidableEq, Repr

namespace ReconnectPolicy

/-- The policy that never gives up. -/
def default : ReconnectPolicy := ⟨.ofMillis 250, .ofMillis 30000, UInt32.size - 1⟩

/-- The wait after the `attempt`-th failure in a row. -/
def delay (p : ReconnectPolicy) (attempt : Nat) : Duration :=
  (p.baseDelay.times (1 <<< min (attempt - 1) 16)).shorter p.maxDelay

end ReconnectPolicy
end FieldReplica
