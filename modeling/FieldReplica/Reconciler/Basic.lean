import FieldReplica.Reconciler.Pending

/-!
# The reconciler

Local writes show in the store at once and are brought in line with the server's word afterwards. At
most one mutation of a key is pending. A mutation is staged, sent, accepted as a transaction, and
confirmed when the stream shows that transaction, or a value of the server shows its outcome; a mutation
that fails is taken back, and the store shows the last value that the server gave for the key.
-/
namespace FieldReplica

/-- A mutation that shows in the store and waits to be sent. -/
structure Staged where
  id : Nat
  key : String
  kind : MutationKind
deriving DecidableEq, Repr

/-- What staging a mutation comes to. -/
inductive Staging where
  | staged (s : Staged)
  /-- A removal that met an insertion which had not been sent: both are gone. -/
  | cancelled (key : String)
deriving DecidableEq, Repr

/-- How a mutation ended well. -/
inductive Outcome where
  | confirmed (key : String) (txid : Txid)
  /-- An insertion that was taken back before it was sent. -/
  | cancelled (key : String)
deriving DecidableEq, Repr

/-- What is to be sent for a staged mutation. -/
inductive Sending (R : Type) where
  | send (m : Mutation R)
  | cancelled

/-- A store with the mutations that are pending on it. -/
structure Reconciler (R : Type) where
  store : Store R
  ledger : Ledger R
  nextId : Nat
  closed : Bool

namespace Reconciler

variable {R : Type} [Row R]

/-- How many observed transactions are remembered. -/
def observedCapacity : Nat := 4096

/-- A reconciler with no mutation over a store. -/
def create (store : Store R) : Reconciler R :=
  ⟨store, ⟨.empty, .create observedCapacity⟩, 1, false⟩

/-- Write a batch to the store. -/
def write (r : Reconciler R) (ws : List (Write R)) : Reconciler R :=
  { r with store := r.store.write ws }

/-- Report an event. -/
def notify (r : Reconciler R) (e : Event R) : Reconciler R := { r with store := r.store.notify e }

/-- Report mutations as confirmed. -/
def announce (r : Reconciler R) (cs : List Confirmation) : Reconciler R :=
  { r with store := r.store.notifyAll (cs.map fun c => .confirmed c.key c.txid) }

/-- The record of a key, if it is that of the mutation `id`. -/
def find? (r : Reconciler R) (key : String) (id : Nat) : Option (Pending R) := r.ledger.find? key id

/-! ### Local writes -/

/-- A new row that comes without a key gets the given one. -/
def withKey (fresh : String) : Mutation R → Mutation R
  | .insert row => .insert (if Row.key row = "" then Row.withKey row fresh else row)
  | m => m

/-- Whether a mutation takes back a pending one that has not been sent. -/
def cancels (m : Mutation R) (p : Pending R) : Bool :=
  m.kind = .delete && p.mutation.kind = .insert && !p.isSubmitted

/-- What a mutation does to the store, given the value that stands under its key. -/
def optimistic (m : Mutation R) (current : Option R) : Except MutationError (Write R) :=
  match m, current with
  | .insert row, none => .ok (.upsert row)
  | .insert row, some _ => .error (.alreadyExists (Row.key row))
  | .update _ changes, some row =>
    match Row.applyChanges row changes with
    | .ok row => .ok (.upsert row)
    | .error e => .error (.invalidPatch e.message)
  | .delete key, some _ => .ok (.delete key)
  | .update key _, none => .error (.notFound key)
  | .delete key, none => .error (.notFound key)

/-- Show a mutation in the store and reserve its key until the mutation is settled. -/
def stage (r : Reconciler R) (fresh : String) (m : Mutation R) :
    Except MutationError (Reconciler R × Staging) :=
  if !Row.isMutable R && m.kind ≠ .insert then .error (.unsupported (Row.table R) m.kind)
  else
    let m := withKey fresh m
    let key := m.key
    if r.closed then .error .closed
    else
      match r.ledger.pending.find? key with
      | some p =>
        if cancels m p then
          .ok (({ r with ledger := r.ledger.remove key }).write [.restore key p.base], .cancelled key)
        else .error (.inFlight key)
      | none =>
        let current := r.store.get? key
        match optimistic m current with
        | .error e => .error e
        | .ok w =>
          let staged := r.ledger.put key ⟨r.nextId, m, .staged, current⟩
          .ok (({ r with ledger := staged, nextId := r.nextId + 1 }).write [w],
            .staged ⟨r.nextId, key, m.kind⟩)

/-- Start to send a staged mutation. -/
def beginSubmit (r : Reconciler R) (s : Staged) : Except MutationError (Reconciler R × Sending R) :=
  match r.find? s.key s.id with
  | some p =>
    .ok ({ r with ledger := r.ledger.put s.key { p with progress := .submitted } }, .send p.mutation)
  | none => if r.closed then .error .closed else .ok (r, .cancelled)

/-- Retire a record: the store shows `value` under its key again. -/
def retire (r : Reconciler R) (key : String) (value : Option R) : Reconciler R :=
  ({ r with ledger := r.ledger.remove key }).write [.restore key value]

/-- Take back a mutation that failed. -/
def rollBack (r : Reconciler R) (key : String) (id : Nat) (e : MutationError) : Reconciler R :=
  match r.find? key id with
  | some p => (r.retire key p.base).notify (.rolledBack key e.message)
  | none => r

/-- Note the transaction as which a mutation was accepted. It is confirmed if the stream has shown
that transaction already; the result says so. -/
def awaitTxid (r : Reconciler R) (key : String) (id : Nat) (txid : Txid) :
    Except MutationError (Reconciler R × Bool) :=
  match r.find? key id with
  | none => .error .closed
  | some p =>
    if r.ledger.observed.contains key txid then
      .ok ((r.retire key p.base).notify (.confirmed key txid), true)
    else .ok ({ r with ledger := r.ledger.put key { p with progress := .awaiting txid } }, false)

/-- Settle a mutation that was not confirmed in time by the row that the server has under its key. -/
def settle (r : Reconciler R) (key : String) (id : Nat) (txid : Txid) (m : Mutation R)
    (canonical : Except AdapterError (Option R)) : Reconciler R × Except MutationError Outcome :=
  match r.find? key id with
  | none => (r, .error .closed)
  | some p =>
    let lost (value : Option R) : Reconciler R × Except MutationError Outcome :=
      let e := MutationError.lost key txid
      ((r.retire key value).notify (.rolledBack key e.message), .error e)
    match canonical with
    | .ok server =>
      if m.isReflectedBy server then
        ((r.retire key server).notify (.confirmed key txid), .ok (.confirmed key txid))
      else lost server
    | .error _ => lost p.base

/-! ### The stream -/

/-- Apply a batch of remote changes in order. -/
def applyRemote (r : Reconciler R) (cs : List (RemoteChange R)) : Reconciler R × List Confirmation :=
  let receipt := r.ledger.receiveAll cs
  ((({ r with ledger := receipt.ledger }).write receipt.writes).announce receipt.confirmed,
    receipt.confirmed)

/-- The removals of a full image: rows that it lacks and that no mutation is pending on. -/
def removals (r : Reconciler R) (image : Table String R) : List (Write R) :=
  (r.store.keys.filter fun key => !image.contains key && !r.ledger.pending.contains key).map .delete

/-- Apply a full image of the table, the last row of a key counting. -/
def applySnapshot (r : Reconciler R) (rows : List R) (resync : Bool) :
    Reconciler R × List Confirmation :=
  let image : Table String R := .ofList (rows.map fun row => (Row.key row, row))
  let confirmed := r.ledger.reflectedBy image
  let ledger := r.ledger.rebase image
  let restores := confirmed.map fun c => Write.restore c.key (image.find? c.key)
  let upserts := (image.entries.filter fun e => !ledger.pending.contains e.1).map fun e => .upsert e.2
  let written := ({ r with ledger }).write (r.removals image ++ restores ++ upserts)
  let noted := if resync then written.notify (.resynced image.size) else written
  (noted.announce confirmed, confirmed)

/-- Show rows until the stream's own image arrives, except where a mutation is pending. -/
def seed (r : Reconciler R) (rows : List R) : Reconciler R :=
  r.write ((rows.filter fun row => !r.ledger.pending.contains (Row.key row)).map .upsert)

/-- Take no more mutations and drop the pending ones. -/
def close (r : Reconciler R) : Reconciler R :=
  { r with ledger := { r.ledger with pending := .empty }, closed := true }

/-- The pending mutations with their keys, in the order in which they were staged. -/
def pendingById (r : Reconciler R) : List (String × Pending R) :=
  r.ledger.pending.entries.mergeSort fun a b => a.2.id ≤ b.2.id

end Reconciler
end FieldReplica
