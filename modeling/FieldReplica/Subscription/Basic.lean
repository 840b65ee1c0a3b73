import FieldReplica.Error
import FieldReplica.Reconciler.Pending
import FieldReplica.Subscription.Backoff

/-!
# The shape subscription

What a client keeps about one shape of the server: first an image of the table, gathered page by page
until the server says that it is complete, and then the changes. The subscription asks for one batch at
a time, skips batches that it has had, starts over when the server no longer knows its place, and waits
before it asks again after a failure.
-/
namespace FieldReplica

/-- A request for one batch. -/
structure ShapeRequest where
  table : String
  /-- Which rows belong to the shape. -/
  filter : String
  offset : LogOffset
  handle : Option ShapeHandle
  /-- Whether the server may hold the request until there is something to say. -/
  live : Bool
deriving DecidableEq, Repr

/-- A batch of messages and the place in the log that it reaches. -/
structure ShapeBatch where
  handle : ShapeHandle
  offset : LogOffset
  messages : List ShapeMessage
deriving DecidableEq, Repr

/-- An answer of the stream. -/
inductive ShapeResponse where
  | batch (b : ShapeBatch)
  /-- The place that was asked for is no longer valid. -/
  | mustRefetch
deriving DecidableEq, Repr

/-- What a subscription delivers. -/
inductive ShapeEvent (R : Type) where
  /-- A complete image of the shape; `resync` if it is not the first. -/
  | snapshot (rows : List R) (resync : Bool)
  | changes (cs : List (RemoteChange R))
  | upToDate
  | reconnecting (attempt : Nat) (delay : Duration) (reason : String)
deriving DecidableEq

/-- An image that is being gathered. -/
structure Image (R : Type) where
  rows : Table String R
  resync : Bool

inductive SubscriptionPhase where
  | snapshotting
  | live
  | failed
deriving DecidableEq, Repr

/-- A subscription to one project's rows of a table. -/
structure Subscription (R : Type) where
  policy : ReconnectPolicy
  projectId : Int64
  handle : Option ShapeHandle
  offset : LogOffset
  /-- The image under way; none once the subscription is live. -/
  image : Option (Image R)
  failure : Option ShapeError
  /-- Failures since the last answer. -/
  failures : Nat
  /-- The wait before the next request. -/
  delay : Option Duration
  /-- Records that could not be read as rows. -/
  dropped : Nat

namespace Subscription

variable {R : Type} [Row R]

def create (policy : ReconnectPolicy) (projectId : Int64) : Subscription R :=
  ⟨policy, projectId, none, .beforeStart, some ⟨.empty, false⟩, none, 0, none, 0⟩

/-- A subscription that goes on where an earlier one ended. -/
def resume (policy : ReconnectPolicy) (projectId : Int64) (p : Position) : Subscription R :=
  let s : Subscription R := create policy projectId
  { s with handle := some p.handle, offset := p.offset, image := none }

def phase (s : Subscription R) : SubscriptionPhase :=
  if s.failure.isSome then .failed else if s.image.isSome then .snapshotting else .live

/-- The place up to which everything has been delivered; none unless the subscription is live. -/
def position (s : Subscription R) : Option Position :=
  if s.phase = .live then s.handle.map fun h => ⟨h, s.offset⟩ else none

def request (s : Subscription R) : ShapeRequest :=
  { table := Row.table R
    filter := "project_id=" ++ toString s.projectId.toInt
    offset := s.offset
    handle := s.handle
    live := s.image.isNone }

/-- Forget the place and gather a new image. -/
def restart (s : Subscription R) : Subscription R :=
  { s with handle := none, offset := .beforeStart, image := some ⟨.empty, true⟩ }

/-- The remote change that a message tells of; none if it does not carry a row of its own key. -/
def decodeChange (m : ChangeMessage) : Option (RemoteChange R) :=
  match m.headers.operation with
  | .delete => some ⟨m.key, none, m.headers.txids⟩
  | .insert | .update =>
    match (Row.decode : Decoder R).ofJson m.value with
    | .ok row => if Row.key row = m.key then some ⟨m.key, some row, m.headers.txids⟩ else none
    | .error _ => none

/-- What the messages of a batch say, up to an order to start over. -/
structure Reading (R : Type) where
  changes : List (RemoteChange R)
  upToDate : Bool
  mustRefetch : Bool
  dropped : Nat

/-- Read messages in order; changes are skipped in a batch that was delivered before. -/
def readMessages (replay : Bool) : List ShapeMessage → Reading R
  | [] => ⟨[], false, false, 0⟩
  | .control .mustRefetch :: _ => ⟨[], false, true, 0⟩
  | .control .upToDate :: rest => { readMessages replay rest with upToDate := true }
  | .change m :: rest =>
    let r := readMessages replay rest
    if replay then r
    else
      match decodeChange m with
      | some c => { r with changes := c :: r.changes }
      | none => { r with dropped := r.dropped + 1 }

/-- Whether a batch reaches no further than what was delivered. -/
def isReplay (s : Subscription R) (offset : LogOffset) : Bool :=
  s.offset ≠ .beforeStart && offset.le s.offset

def later (a b : LogOffset) : LogOffset := if a.le b then b else a

/-- The rows of an image after a change. -/
def Image.apply (rows : Table String R) (c : RemoteChange R) : Table String R :=
  match c.row with
  | some row => rows.insert c.key row
  | none => rows.erase c.key

/-- Take in a batch; none if there is nothing to deliver yet. -/
def applyBatch (s : Subscription R) (b : ShapeBatch) : Subscription R × Option (ShapeEvent R) :=
  if s.image.isNone && s.handle.any (· ≠ b.handle) then (s.restart, none)
  else
    let reading : Reading R := readMessages (s.isReplay b.offset) b.messages
    let s := { s with dropped := s.dropped + reading.dropped }
    if reading.mustRefetch then (s.restart, none)
    else
      let s := { s with handle := some b.handle, offset := later s.offset b.offset }
      match s.image with
      | none =>
        if reading.changes ≠ [] then (s, some (.changes reading.changes))
        else if reading.upToDate then (s, some .upToDate)
        else (s, none)
      | some image =>
        let rows := reading.changes.foldl Image.apply image.rows
        if reading.upToDate then
          ({ s with image := none }, some (.snapshot rows.values image.resync))
        else ({ s with image := some { image with rows } }, none)

/-- What an answer leads to. -/
inductive Step (R : Type) where
  /-- Ask again. -/
  | proceed
  | deliver (e : ShapeEvent R)
  /-- The subscription is over. -/
  | failed (e : ShapeError)

/-- The end of a subscription. -/
def fail (s : Subscription R) (e : ShapeError) : Subscription R × Step R :=
  ({ s with failure := some e }, .failed e)

def receive (s : Subscription R) (outcome : Except ShapeError ShapeResponse) :
    Subscription R × Step R :=
  match outcome with
  | .ok .mustRefetch => (({ s with failures := 0 }).restart, .proceed)
  | .ok (.batch b) =>
    match ({ s with failures := 0 }).applyBatch b with
    | (s, some e) => (s, .deliver e)
    | (s, none) => (s, .proceed)
  | .error e =>
    if e.isPermanent then s.fail e
    else
      let n := s.failures + 1
      let s := { s with failures := n }
      if s.policy.maxAttempts ≤ n then s.fail e
      else
        let delay := s.policy.delay n
        ({ s with delay := some delay }, .deliver (.reconnecting n delay e.message))

/-- What comes before the next outcome: a failed subscription asks no more, and one that has to wait
waits once. -/
inductive Next where
  | failed (e : ShapeError)
  | request (wait : Option Duration) (r : ShapeRequest)

def begin (s : Subscription R) : Subscription R × Next :=
  match s.failure with
  | some e => (s, .failed e)
  | none => ({ s with delay := none }, .request s.delay s.request)

/-- What was asked, waited for and delivered until the next event. -/
structure Turn (R : Type) where
  subscription : Subscription R
  /-- The outcomes that are left. -/
  rest : List (Except ShapeError ShapeResponse)
  requests : List ShapeRequest
  waited : Duration
  result : Except ShapeError (ShapeEvent R)

/-- Ask, given the outcomes to come and the one after them, until there is something to deliver. -/
def nextEvent (s : Subscription R) (ending : ShapeError)
    (outcomes : List (Except ShapeError ShapeResponse)) : Turn R :=
  match s.begin with
  | (s, .failed e) => ⟨s, outcomes, [], ⟨0⟩, .error e⟩
  | (s, .request wait r) =>
    let wait := wait.getD ⟨0⟩
    match outcomes with
    | [] => ⟨(s.fail ending).1, [], [r], wait, .error ending⟩
    | outcome :: rest =>
      match s.receive outcome with
      | (s, .failed e) => ⟨s, rest, [r], wait, .error e⟩
      | (s, .deliver e) => ⟨s, rest, [r], wait, .ok e⟩
      | (s, .proceed) =>
        let turn := s.nextEvent ending rest
        { turn with requests := r :: turn.requests, waited := ⟨wait.nanos + turn.waited.nanos⟩ }

end Subscription
end FieldReplica
