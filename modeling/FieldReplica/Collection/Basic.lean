import FieldReplica.Reconciler.Desk
import FieldReplica.Subscription.Basic

/-!
# Collections

The live replica of one table of one project: a desk for the local writes and a subscription that feeds
it. The feed first asks for the table's rows, if it is told to, and then asks the stream for one batch
after another; it ends when the subscription fails or the collection is closed. What a collection shows
of itself is a status, whether it has become ready, and the place from which a later collection can go
on.
-/
namespace FieldReplica

structure CollectionOptions where
  /-- How long a mutation waits for its transaction, in milliseconds. -/
  confirmationTimeout : Nat
  reconnect : ReconnectPolicy
  seedFromSnapshot : Bool
  notificationCapacity : Nat
deriving DecidableEq, Repr

inductive CollectionStatus where
  | connecting
  | live
  | reconnecting (attempt : Nat)
  | failed (reason : String)
  | closed
deriving DecidableEq, Repr

def CollectionStatus.name : CollectionStatus → String
  | .connecting => "connecting"
  | .live => "live"
  | .reconnecting _ => "reconnecting"
  | .failed _ => "failed"
  | .closed => "closed"

/-- What the feed of a collection waits for. -/
inductive Feed where
  /-- The rows of the table. -/
  | seeding
  /-- A moment, at the end of a wait that began at another. -/
  | sleeping (since deadline : Nat)
  /-- The next batch. -/
  | fetching
  | stopped
deriving DecidableEq, Repr

/-- A request of the feed, or an effect of the desk. -/
inductive Activity (R : Type) where
  | desk (e : Effect R)
  | fetchSnapshot
  | fetchBatch (r : ShapeRequest)

/-- The live replica of a table. -/
structure Collection (R : Type) where
  projectId : Int64
  desk : Desk R
  subscription : Subscription R
  feed : Feed
  status : CollectionStatus
  ready : Bool
  position : Option Position

namespace Collection

variable {R : Type} [Row R]

def store (c : Collection R) : Store R := c.desk.reconciler.store

def notify (c : Collection R) (e : Event R) : Collection R :=
  { c with desk := { c.desk with reconciler := c.desk.reconciler.notify e } }

def withDesk (c : Collection R) (step : Desk R × List (Effect R)) :
    Collection R × List (Activity R) :=
  ({ c with desk := step.1 }, step.2.map .desk)

/-! ### The feed -/

/-- Ask for the next batch, after a wait if there is one. -/
def fetchNext (c : Collection R) : Collection R × List (Activity R) :=
  match c.subscription.begin with
  | (s, .failed _) => ({ c with subscription := s, feed := .stopped }, [])
  | (s, .request none r) => ({ c with subscription := s, feed := .fetching }, [.fetchBatch r])
  | (s, .request (some wait) _) =>
    ({ c with
      subscription := s
      feed := .sleeping c.desk.now (c.desk.now + wait.millis) }, [])

/-- The collection has the stream's word. -/
def markLive (c : Collection R) : Collection R := { c with ready := true, status := .live }

/-- Take in an event of the subscription. -/
def apply (c : Collection R) (e : ShapeEvent R) : Collection R × List (Activity R) :=
  match e with
  | .snapshot rows resync =>
    let (c, acts) := c.withDesk (c.desk.snapshot rows resync)
    (c.markLive, acts)
  | .changes cs =>
    let (c, acts) := c.withDesk (c.desk.remote cs)
    (c.markLive, acts)
  | .upToDate => (c.markLive, [])
  | .reconnecting attempt delay reason =>
    ({ c with status := .reconnecting attempt }.notify (.reconnecting attempt delay reason), [])

/-- The rows of the table arrive, or do not. -/
def receiveRows (c : Collection R) (answer : Except AdapterError (List R)) :
    Collection R × List (Activity R) :=
  match c.feed with
  | .seeding =>
    match answer with
    | .ok rows => { c with desk := c.desk.seed rows }.fetchNext
    | .error _ => c.fetchNext
  | _ => (c, [])

/-- The outcome of a request for a batch. -/
def receiveBatch (c : Collection R) (outcome : Except ShapeError ShapeResponse) :
    Collection R × List (Activity R) :=
  match c.feed with
  | .fetching =>
    match c.subscription.receive outcome with
    | (s, .proceed) => { c with subscription := s }.fetchNext
    | (s, .deliver e) =>
      let (c, first) := { c with subscription := s }.apply e
      let (c, rest) := { c with position := s.position }.fetchNext
      (c, first ++ rest)
    | (s, .failed e) =>
      ({ c with subscription := s, feed := .stopped, status := .failed e.message }.notify
        (.subscriptionFailed e.message), [])
  | _ => (c, [])

/-- The wait of the feed ends, if its moment has come. -/
def awaken (c : Collection R) : Collection R × List (Activity R) :=
  match c.feed with
  | .sleeping _ deadline =>
    if deadline ≤ c.desk.now then
      ({ c with feed := .fetching }, [.fetchBatch c.subscription.request])
    else (c, [])
  | _ => (c, [])

/-! ### Opening and closing -/

/-- Open a collection, from the position where an earlier one ended if there is one. A collection that
goes on from a position always asks for the table's rows first. -/
def start (projectId : Int64) (options : CollectionOptions) (resume : Option Position) :
    Collection R × List (Activity R) :=
  let subscription : Subscription R := match resume with
    | none => .create options.reconnect projectId
    | some p => .resume options.reconnect projectId p
  let c : Collection R :=
    { projectId
      desk := .create options.notificationCapacity options.confirmationTimeout
      subscription
      feed := .seeding
      status := .connecting
      ready := false
      position := resume }
  if options.seedFromSnapshot || resume.isSome then (c, [.fetchSnapshot]) else c.fetchNext

/-- What is done to close a collection, one thing after the other. -/
inductive ClosePart where
  /-- The feed is told to end, and has ended. -/
  | feed
  /-- Mutations end. -/
  | mutations
  /-- The rows are dropped. -/
  | rows
  | status
deriving DecidableEq, Repr

def ClosePart.all : List ClosePart := [.feed, .mutations, .rows, .status]

/-- Do a part of what closes a collection. -/
def closePart (c : Collection R) : ClosePart → Collection R × List (Activity R)
  | .feed => ({ c with feed := .stopped }, [])
  | .mutations => c.withDesk c.desk.close
  | .rows =>
    let reconciler := c.desk.reconciler
    let cleared := { reconciler with store := reconciler.store.clear }
    ({ c with desk := { c.desk with reconciler := cleared } }, [])
  | .status => ({ c with status := .closed }, [])

/-- Close a collection, with nothing between the parts. -/
def close (c : Collection R) : Collection R × List (Activity R) :=
  let (c, acts) := (c.closePart .feed).1.closePart .mutations
  (((c.closePart .rows).1.closePart .status).1, acts)

/-- Whether one who waits for the collection to be ready can go on, and with what; none as long as the
wait lasts. -/
def readiness (c : Collection R) : Option (Except CollectionError Unit) :=
  if c.ready && c.status ≠ .closed then some (.ok ())
  else
    match c.status with
    | .failed reason => some (.error (.failed reason))
    | .closed => some (.error .closed)
    | _ => none

end Collection
end FieldReplica
