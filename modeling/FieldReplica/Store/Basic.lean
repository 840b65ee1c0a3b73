import FieldReplica.Error
import FieldReplica.Row.Basic
import FieldReplica.Store.Channel
import FieldReplica.Subscription.Backoff
import FieldReplica.Table

/-!
# The row store

The rows of one table as they are seen, each under its own key, with a version that counts the batches
that changed something and a channel that reports every change. A batch is written in order; a write
without effect is not reported.
-/
namespace FieldReplica

inductive ChangeKind where
  | added
  | updated
  | removed
deriving DecidableEq, Repr

/-- A row that was written, or the row that was removed. -/
structure Change (R : Type) where
  key : String
  kind : ChangeKind
  row : R
deriving DecidableEq

/-- What is reported about a collection. -/
inductive Event (R : Type) where
  | changed (c : Change R)
  /-- The server has a mutation. -/
  | confirmed (key : String) (txid : Txid)
  /-- A mutation was taken back. -/
  | rolledBack (key : String) (reason : String)
  | reconnecting (attempt : Nat) (delay : Duration) (reason : String)
  /-- The stream started over with this many rows. -/
  | resynced (rows : Nat)
  | subscriptionFailed (message : String)
deriving DecidableEq

/-- A write to the store. -/
inductive Write (R : Type) where
  | upsert (row : R)
  | delete (key : String)
deriving DecidableEq

namespace Write

variable {R : Type} [Row R]

/-- The write that puts back what stood under a key. -/
def restore (key : String) : Option R → Write R
  | some row => .upsert row
  | none => .delete key

def apply (rows : Table String R) : Write R → Table String R
  | .upsert row => rows.insert (Row.key row) row
  | .delete key => rows.erase key

def change? (rows : Table String R) : Write R → Option (Change R)
  | .upsert row =>
    match rows.find? (Row.key row) with
    | none => some ⟨Row.key row, .added, row⟩
    | some previous => if previous = row then none else some ⟨Row.key row, .updated, row⟩
  | .delete key => (rows.find? key).map fun previous => ⟨key, .removed, previous⟩

def applyAll (rows : Table String R) (ws : List (Write R)) : Table String R := ws.foldl apply rows

def changes (rows : Table String R) : List (Write R) → List (Change R)
  | [] => []
  | w :: ws => (w.change? rows).toList ++ changes (w.apply rows) ws

end Write

/-- The rows of a table and what has been reported about them. -/
structure Store (R : Type) where
  rows : Table String R
  version : Nat
  channel : Channel (Event R)

namespace Store

variable {R : Type} [Row R]

/-- An empty store whose channel keeps the given number of events. -/
def create (capacity : Nat) : Store R := ⟨.empty, 0, .create capacity⟩

def get? (s : Store R) (key : String) : Option R := s.rows.find? key

def contains (s : Store R) (key : String) : Bool := s.rows.contains key

def list (s : Store R) : List R := s.rows.values

def keys (s : Store R) : List String := s.rows.keys

def size (s : Store R) : Nat := s.rows.size

def notify (s : Store R) (e : Event R) : Store R := { s with channel := s.channel.send e }

def notifyAll (s : Store R) (es : List (Event R)) : Store R :=
  { s with channel := s.channel.sendAll es }

/-- Write a batch, report what it changes, and give that back. -/
def applyBatch (s : Store R) (ws : List (Write R)) : Store R × List (Change R) :=
  let changes := Write.changes s.rows ws
  ({ rows := Write.applyAll s.rows ws
     version := if changes.isEmpty then s.version else s.version + 1
     channel := s.channel.sendAll (changes.map .changed) }, changes)

def write (s : Store R) (ws : List (Write R)) : Store R := (s.applyBatch ws).1

def upsert (s : Store R) (row : R) : Store R := s.write [.upsert row]

def delete (s : Store R) (key : String) : Store R := s.write [.delete key]

def clear (s : Store R) : Store R := { s with rows := .empty, version := s.version + 1 }

end Store
end FieldReplica
