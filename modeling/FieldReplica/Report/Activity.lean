import FieldReplica.Collection.Basic
import FieldReplica.Report.Failure

/-!
# Events, requests and states as JSON

What a store reports, what a collection asks of its server, and what can be seen of a collection, each as
a JSON object.
-/
namespace FieldReplica.Report

def changeKind : ChangeKind → String
  | .added => "added"
  | .updated => "updated"
  | .removed => "removed"

/-- An object with the name of its kind. -/
def typed (kind : String) (members : List (String × Json)) : Json :=
  .object (("type", .string kind) :: members)

def reconnecting (attempt : Nat) (delay : Duration) (reason : String) : Json :=
  typed "reconnecting" [("attempt", .nat attempt), ("delay_ms", .nat delay.millis),
    ("reason", .string reason)]

def position : Option Position → Json := Json.optional Position.toJson

def shapeRequest (r : ShapeRequest) : Json :=
  .object [("table", .string r.table), ("where", .string r.filter), ("offset", r.offset.toJson),
    ("handle", Json.optional ShapeHandle.toJson r.handle), ("live", .bool r.live)]

def outcome : Except MutationError Outcome → Json
  | .ok (.confirmed key txid) => .object [("confirmed", .string key), ("txid", txid.toJson)]
  | .ok (.cancelled key) => .object [("cancelled", .string key)]
  | .error e => mutationError e

section
variable {R : Type} [Row R]

def rows (l : List R) : Json := .array (l.map Row.toJson)

def change (c : Change R) : Json :=
  typed "changed" [("kind", .string (changeKind c.kind)), ("key", .string c.key),
    ("row", Row.toJson c.row)]

def event : Event R → Json
  | .changed c => change c
  | .confirmed key txid => typed "confirmed" [("key", .string key), ("txid", txid.toJson)]
  | .rolledBack key reason => typed "rolled_back" [("key", .string key), ("reason", .string reason)]
  | .reconnecting attempt delay reason => reconnecting attempt delay reason
  | .resynced rows => typed "resynced" [("rows", .nat rows)]
  | .subscriptionFailed message => typed "failed" [("message", .string message)]

def received : Channel.Received (Event R) → Json
  | .lagged n => typed "lagged" [("skipped", .nat n)]
  | .event e => event e

def remoteChange (c : RemoteChange R) : Json :=
  .object [("key", .string c.key), ("row", Json.optional Row.toJson c.row),
    ("txids", .array (c.txids.map Txid.toJson))]

def shapeEvent : ShapeEvent R → Json
  | .snapshot l resync => typed "snapshot" [("rows", rows l), ("resync", .bool resync)]
  | .changes cs => typed "changes" [("changes", .array (cs.map remoteChange))]
  | .upToDate => typed "up_to_date" []
  | .reconnecting attempt delay reason => reconnecting attempt delay reason

def subscription (s : Subscription R) : Json :=
  let phase := match s.phase with
    | .snapshotting => "snapshotting"
    | .live => "live"
    | .failed => "failed"
  .object [("phase", .string phase), ("offset", s.offset.toJson), ("resume", position s.position),
    ("dropped", .nat s.dropped)]

/-- The request that sends a mutation. -/
def submit (m : Mutation R) : Json :=
  .object ([("call", .string "submit"), ("kind", .string m.kind.name), ("key", .string m.key)] ++
    match m with
    | .insert row => [("row", Row.toJson row)]
    | .update _ changes => [("changes", .object changes.entries)]
    | .delete _ => [])

def pending (key : String) (p : Pending R) : Json :=
  .object [("id", .nat p.id), ("key", .string key), ("kind", .string p.mutation.kind.name),
    ("state", .string p.state.name), ("submitted", .bool p.isSubmitted),
    ("txid", Json.optional Txid.toJson p.txid?)]

/-- The pending mutations in the order in which they were staged. -/
def pendings (r : Reconciler R) : Json :=
  .array (r.pendingById.map fun (key, p) => pending key p)

def collectionStatus (s : CollectionStatus) : Json :=
  .object (("status", .string s.name) :: match s with
    | .reconnecting attempt => [("attempt", .nat attempt)]
    | .failed message => [("message", .string message)]
    | _ => [])

def collection (c : Collection R) : Json :=
  .object [("status", collectionStatus c.status), ("position", position c.position),
    ("rows", rows c.store.list), ("len", .nat c.store.size), ("version", .nat c.store.version),
    ("pending", pendings c.desk.reconciler)]

end

end FieldReplica.Report
