import FieldReplica.Mutation.Basic
import FieldReplica.Reconciler.ObservedTxids
import FieldReplica.Store.Basic

/-!
# Pending mutations

A mutation is pending from the moment it shows in the store until the server's word on it. Its record
keeps the last value that the server gave for its key, which is what the store shows once the record is
gone. A remote change to a key with a pending mutation moves that value only, unless it carries the
mutation's own transaction: then the mutation is confirmed and its record goes.
-/
namespace FieldReplica

/-- A row as the server has it now, absent if it was removed, and the transactions that made it so. -/
structure RemoteChange (R : Type) where
  key : String
  row : Option R
  txids : List Txid
deriving DecidableEq

/-- How far a pending mutation has come. -/
inductive Progress where
  /-- Shown in the store, not yet sent. -/
  | staged
  /-- Sent, not yet answered. -/
  | submitted
  /-- Accepted as a transaction that the stream has not shown yet. -/
  | awaiting (txid : Txid)
deriving DecidableEq, Repr

/-- A pending mutation. -/
structure Pending (R : Type) where
  id : Nat
  mutation : Mutation R
  progress : Progress
  /-- The last value that the server gave for the key. -/
  base : Option R
deriving DecidableEq

/-- What is shown of how far a pending mutation has come. -/
inductive MutationState where
  | applied
  | awaitingConfirmation
deriving DecidableEq, Repr

def MutationState.name : MutationState → String
  | .applied => "applied"
  | .awaitingConfirmation => "awaiting_confirmation"

namespace Pending

variable {R : Type} [Row R]

def txid? (p : Pending R) : Option Txid :=
  match p.progress with
  | .awaiting t => some t
  | .staged | .submitted => none

def state (p : Pending R) : MutationState :=
  match p.progress with
  | .awaiting _ => .awaitingConfirmation
  | .staged | .submitted => .applied

/-- Whether the mutation has been sent. -/
def isSubmitted (p : Pending R) : Bool := p.progress ≠ .staged

/-- The mutation's own transaction, if it is among the given ones. -/
def matched? (p : Pending R) (txids : List Txid) : Option Txid :=
  p.txid?.filter (· ∈ txids)

/-- The mutation's own transaction, if the mutation has one and its outcome shows in a value of the
server. -/
def reflected? (p : Pending R) (server : Option R) : Option Txid :=
  p.txid?.filter fun _ => p.mutation.isReflectedBy server

end Pending

/-- A mutation that the server was found to have. -/
structure Confirmation where
  id : Nat
  key : String
  txid : Txid
deriving DecidableEq, Repr

/-- The pending mutations by key, and the transactions observed for them. -/
structure Ledger (R : Type) where
  pending : Table String (Pending R)
  observed : ObservedTxids

namespace Ledger

variable {R : Type} [Row R]

/-- The record of a key, if it is that of the mutation `id`. -/
def find? (l : Ledger R) (key : String) (id : Nat) : Option (Pending R) :=
  (l.pending.find? key).filter (·.id = id)

def put (l : Ledger R) (key : String) (p : Pending R) : Ledger R :=
  { l with pending := l.pending.insert key p }

def remove (l : Ledger R) (key : String) : Ledger R := { l with pending := l.pending.erase key }

/-- What follows from remote changes. -/
structure Receipt (R : Type) where
  ledger : Ledger R
  writes : List (Write R)
  confirmed : List Confirmation

/-- Take in one remote change. -/
def receive (l : Ledger R) (c : RemoteChange R) : Receipt R :=
  match l.pending.find? c.key with
  | none => ⟨l, [.restore c.key c.row], []⟩
  | some p =>
    match p.matched? c.txids with
    | some t => ⟨l.remove c.key, [.restore c.key c.row], [⟨p.id, c.key, t⟩]⟩
    | none =>
      ⟨⟨l.pending.insert c.key { p with base := c.row }, l.observed.recordAll c.key c.txids⟩, [], []⟩

/-- Take in remote changes in order. -/
def receiveAll (l : Ledger R) : List (RemoteChange R) → Receipt R
  | [] => ⟨l, [], []⟩
  | c :: cs =>
    let first := l.receive c
    let rest := first.ledger.receiveAll cs
    ⟨rest.ledger, first.writes ++ rest.writes, first.confirmed ++ rest.confirmed⟩

/-- The pending mutations whose outcome a full image of the table shows, in key order. -/
def reflectedBy (l : Ledger R) (image : Table String R) : List Confirmation :=
  l.pending.entries.filterMap fun (key, p) =>
    (p.reflected? (image.find? key)).map fun t => ⟨p.id, key, t⟩

/-- The ledger after a full image: the mutations that it shows are gone, and the others have their
server value from it. -/
def rebase (l : Ledger R) (image : Table String R) : Ledger R :=
  { l with
    pending := (l.pending.filter fun key p => (p.reflected? (image.find? key)).isNone).map
      fun key p => { p with base := image.find? key } }

end Ledger
end FieldReplica
