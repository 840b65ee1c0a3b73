import FieldReplica.Collection.Basic

/-!
# Sessions with prepared answers

A collection whose server is a store of prepared answers. A request takes the first answer that is
prepared for its address, and waits if there is none. `settle` lets everything happen that can happen
without a new answer and without the passing of time: requests take their answers first, and then the
deadlines that have passed take effect, the earliest first.
-/
namespace FieldReplica

/-- Answers that no request has taken yet. -/
structure Replies (R : Type) where
  submits : List (String × Except AdapterError Txid)
  reads : List (String × Except AdapterError (Option R))
  snapshots : List (Except AdapterError (List R))
  batches : List (Except ShapeError ShapeResponse)

namespace Replies

variable {R : Type}

def empty : Replies R := ⟨[], [], [], []⟩

def size (q : Replies R) : Nat :=
  q.submits.length + q.reads.length + q.snapshots.length + q.batches.length

def takeFirst {α : Type} (key : String) : List (String × α) → Option (α × List (String × α))
  | [] => none
  | (k, a) :: rest =>
    if k = key then some (a, rest)
    else (takeFirst key rest).map fun (b, rest) => (b, (k, a) :: rest)

end Replies

/-- A collection and the answers that are prepared for it. -/
structure Session (R : Type) where
  collection : Collection R
  replies : Replies R

namespace Session

variable {R : Type} [Row R]

/-- What a step of the collection gives. -/
def next (replies : Replies R) (step : Collection R × List (Activity R)) :
    Session R × List (Activity R) := (⟨step.1, replies⟩, step.2)

/-- A submission takes an answer that is prepared for it. -/
def answerFlight? (s : Session R) (f : Flight R) : Option (Session R × List (Activity R)) :=
  let c := s.collection
  match f.phase with
  | .reply => (Replies.takeFirst f.key s.replies.submits).map fun (a, submits) =>
      next { s.replies with submits } (c.withDesk (c.desk.reply f.id a))
  | .reading _ => (Replies.takeFirst f.key s.replies.reads).map fun (a, reads) =>
      next { s.replies with reads } (c.withDesk (c.desk.read f.id a))
  | .confirmation _ _ => none

/-- The feed takes an answer that is prepared for it. -/
def answerFeed? (s : Session R) : Option (Session R × List (Activity R)) :=
  match s.collection.feed, s.replies.snapshots, s.replies.batches with
  | .seeding, a :: snapshots, _ =>
    some (next { s.replies with snapshots } (s.collection.receiveRows a))
  | .fetching, _, a :: batches =>
    some (next { s.replies with batches } (s.collection.receiveBatch a))
  | _, _, _ => none

/-- A deadline: when it falls, when the wait for it began, and whose it is; none for the feed. -/
structure Deadline where
  moment : Nat
  since : Nat
  owner : Option Nat

/-- The deadlines that are waited for, that of the feed first. -/
def deadlines (s : Session R) : List Deadline :=
  let d := s.collection.desk
  let feed : List Deadline := match s.collection.feed with
    | .sleeping since deadline => [⟨deadline, since, none⟩]
    | _ => []
  let flights := d.flights.filterMap fun f => match f.phase with
    | .confirmation _ deadline => some ⟨deadline, deadline - d.timeout, some f.id⟩
    | _ => none
  feed ++ flights

def due (s : Session R) : List Deadline :=
  s.deadlines.filter (·.moment ≤ s.collection.desk.now)

/-- Whether a deadline takes effect before another one: the earlier first, of two at one moment the one
that was waited for longer. -/
def Deadline.notAfter (a b : Deadline) : Bool :=
  a.moment < b.moment || (a.moment = b.moment && a.since ≤ b.since)

def step? (s : Session R) : Option (Session R × List (Activity R)) :=
  match s.collection.desk.flights.findSome? s.answerFlight? with
  | some r => some r
  | none =>
    match s.answerFeed? with
    | some r => some r
    | none =>
      match s.due.mergeSort Deadline.notAfter with
      | [] => none
      | ⟨_, _, none⟩ :: _ => some (next s.replies s.collection.awaken)
      | ⟨_, _, some id⟩ :: _ =>
        some (next s.replies (s.collection.withDesk (s.collection.desk.expire id)))

def run (s : Session R) : Nat → Session R × List (Activity R)
  | 0 => (s, [])
  | n + 1 =>
    match s.step? with
    | none => (s, [])
    | some (s, acts) =>
      let (s, rest) := s.run n
      (s, acts ++ rest)

/-- Let everything happen that can: each answer is taken once, and a deadline passes once for every
wait, of which an answer begins one at most. -/
def settle (s : Session R) : Session R × List (Activity R) :=
  s.run (2 * s.replies.size + s.collection.desk.flights.length + 1)

/-- Let time pass, and then everything happen that can. -/
def advance (s : Session R) (ms : Nat) : Session R × List (Activity R) :=
  { s with collection := { s.collection with desk := s.collection.desk.advance ms } }.settle

end Session
end FieldReplica
