import FieldReplica.Reconciler.Basic

/-!
# The desk

A reconciler together with those who work with it: the holders of staged mutations and the submissions
that are under way. A submission waits for the server's answer, then for its transaction on the stream
until a deadline, and then for the row that it reads from the server. A desk takes one step at a time;
a step gives back the requests that it makes and the submissions that it ends. Time is in
milliseconds and moves only by `advance`.
-/
namespace FieldReplica

/-- What a submission waits for. -/
inductive Phase where
  | reply
  /-- The transaction on the stream, until a deadline. -/
  | confirmation (txid : Txid) (deadline : Nat)
  /-- The row that was asked for after the deadline. -/
  | reading (txid : Txid)
deriving DecidableEq, Repr

/-- A submission that is under way. -/
structure Flight (R : Type) where
  id : Nat
  key : String
  mutation : Mutation R
  phase : Phase
  /-- The stream's confirmation, if it came while the row was being read. -/
  signal : Option Txid
deriving DecidableEq

/-- A request that is made, or a submission that ends. -/
inductive Effect (R : Type) where
  | submit (m : Mutation R)
  | fetchRow (key : String)
  | resolved (id : Nat) (result : Except MutationError Outcome)

/-- A reconciler, the staged mutations that are held, and the submissions under way in the order in
which they began to wait for what they wait for. -/
structure Desk (R : Type) where
  reconciler : Reconciler R
  handles : List Staged
  flights : List (Flight R)
  timeout : Nat
  now : Nat

namespace Desk

variable {R : Type} [Row R]

/-- A desk over an empty store. -/
def create (capacity timeout : Nat) : Desk R := ⟨.create (.create capacity), [], [], timeout, 0⟩

def find? (d : Desk R) (id : Nat) : Option (Flight R) := d.flights.find? (·.id = id)

/-- The submissions but one. -/
def without (d : Desk R) (id : Nat) : Desk R :=
  { d with flights := d.flights.filter (·.id ≠ id) }

/-- Let a submission wait for something else. -/
def requeue (d : Desk R) (f : Flight R) : Desk R :=
  { d with flights := (d.without f.id).flights ++ [f] }

/-- End a submission. -/
def resolve (d : Desk R) (id : Nat) (result : Except MutationError Outcome) :
    Desk R × List (Effect R) :=
  (d.without id, [.resolved id result])

/-! ### Local writes -/

def stage (d : Desk R) (fresh : String) (m : Mutation R) :
    Except MutationError (Desk R × Staging) := do
  let (r, s) ← d.reconciler.stage fresh m
  let handles := match s with
    | .staged s => d.handles ++ [s]
    | .cancelled _ => d.handles
  return ({ d with reconciler := r, handles }, s)

/-- The holder lets go of a staged mutation. -/
def discard (d : Desk R) (id : Nat) : Desk R :=
  { d with handles := d.handles.filter (·.id ≠ id) }

/-- Submit a staged mutation that is held. -/
def submit (d : Desk R) (id : Nat) : Desk R × List (Effect R) :=
  match d.handles.find? (·.id = id) with
  | none => (d, [])
  | some s =>
    let d := d.discard id
    match d.reconciler.beginSubmit s with
    | .error e => (d, [.resolved id (.error e)])
    | .ok (_, .cancelled) => (d, [.resolved id (.ok (.cancelled s.key))])
    | .ok (r, .send m) =>
      (({ d with reconciler := r }).requeue ⟨id, s.key, m, .reply, none⟩, [.submit m])

/-- Give up a submission wherever it stands. Its record stays. -/
def abort (d : Desk R) (id : Nat) : Desk R := d.without id

/-! ### Answers -/

/-- The server answers a submission. -/
def reply (d : Desk R) (id : Nat) (answer : Except AdapterError Txid) : Desk R × List (Effect R) :=
  match d.find? id with
  | some ⟨_, key, m, .reply, signal⟩ =>
    match answer with
    | .error e =>
      let e := MutationError.ofAdapter e
      ({ d with reconciler := d.reconciler.rollBack key id e }).resolve id (.error e)
    | .ok t =>
      match d.reconciler.awaitTxid key id t with
      | .error e => d.resolve id (.error e)
      | .ok (r, true) => ({ d with reconciler := r }).resolve id (.ok (.confirmed key t))
      | .ok (r, false) =>
        (({ d with reconciler := r }).requeue ⟨id, key, m, .confirmation t (d.now + d.timeout), signal⟩,
          [])
  | _ => (d, [])

/-- The deadline of a submission passes: the server's row is read. -/
def expire (d : Desk R) (id : Nat) : Desk R × List (Effect R) :=
  match d.find? id with
  | some ⟨_, key, m, .confirmation t deadline, signal⟩ =>
    if deadline ≤ d.now then (d.requeue ⟨id, key, m, .reading t, signal⟩, [.fetchRow key]) else (d, [])
  | _ => (d, [])

/-- The row that a submission asked for arrives. A confirmation of the stream that came meanwhile goes
before it. -/
def read (d : Desk R) (id : Nat) (answer : Except AdapterError (Option R)) :
    Desk R × List (Effect R) :=
  match d.find? id with
  | some ⟨_, key, m, .reading t, signal⟩ =>
    match signal with
    | some t => d.resolve id (.ok (.confirmed key t))
    | none =>
      let (r, result) := d.reconciler.settle key id t m answer
      ({ d with reconciler := r }).resolve id result
  | _ => (d, [])

/-- Let time pass. -/
def advance (d : Desk R) (ms : Nat) : Desk R := { d with now := d.now + ms }

/-! ### The stream -/

/-- Tell a submission that the stream has confirmed it. -/
def wakeOne (d : Desk R) (c : Confirmation) : Desk R × List (Effect R) :=
  match d.find? c.id with
  | some ⟨_, key, _, .confirmation _ _, _⟩ => d.resolve c.id (.ok (.confirmed key c.txid))
  | some ⟨_, _, _, .reading _, _⟩ =>
    ({ d with
      flights := d.flights.map fun f => if f.id = c.id then { f with signal := some c.txid } else f },
      [])
  | _ => (d, [])

/-- Tell submissions that the stream has confirmed them. -/
def wake (d : Desk R) : List Confirmation → Desk R × List (Effect R)
  | [] => (d, [])
  | c :: cs =>
    let (d, first) := d.wakeOne c
    let (d, rest) := d.wake cs
    (d, first ++ rest)

def remote (d : Desk R) (cs : List (RemoteChange R)) : Desk R × List (Effect R) :=
  let (r, confirmed) := d.reconciler.applyRemote cs
  ({ d with reconciler := r }).wake confirmed

def snapshot (d : Desk R) (rows : List R) (resync : Bool) : Desk R × List (Effect R) :=
  let (r, confirmed) := d.reconciler.applySnapshot rows resync
  ({ d with reconciler := r }).wake confirmed

def seed (d : Desk R) (rows : List R) : Desk R := { d with reconciler := d.reconciler.seed rows }

/-- End, with `closed`, the submissions that wait for a confirmation. -/
def releaseWaiting (d : Desk R) : Desk R × List (Effect R) :=
  let waiting (f : Flight R) : Bool := match f.phase with
    | .confirmation _ _ => true
    | _ => false
  ({ d with flights := d.flights.filter fun f => !waiting f },
    (d.flights.filter waiting).map fun f => .resolved f.id (.error .closed))

/-- Close the reconciler. Requests that are under way are still answered. -/
def close (d : Desk R) : Desk R × List (Effect R) :=
  ({ d with reconciler := d.reconciler.close }).releaseWaiting

/-- Write directly to the store. -/
def store (d : Desk R) (ws : List (Write R)) : Desk R :=
  { d with reconciler := d.reconciler.write ws }

end Desk
end FieldReplica
