import FieldReplica.Http.Exchange
import FieldReplica.Subscription.Basic

/-!
# The endpoint of the replication stream

A request of the stream is a query of the shape endpoint. The answer's headers tell the shape and the place
in the log that its messages reach; a conflict tells that the place that was asked for is no longer valid.
-/
namespace FieldReplica.Http.Api

def shapePairs (r : ShapeRequest) : List (String × String) :=
  [("table", r.table), ("where", r.filter), ("offset", r.offset.toText), ("replica", "full")] ++
    (r.handle.toList.map fun h => ("handle", h.name)) ++ if r.live then [("live", "true")] else []

def shapeRequest (api : Api) (r : ShapeRequest) : Except ShapeError Request :=
  match api.endpoint ["v1", "shape"] with
  | .ok url => .ok ⟨.get, url.withPairs (shapePairs r), api.token, none⟩
  | .error e => .error (.malformed e)

/-- A header that an answer of the stream must have. -/
def neededHeader (a : Answer) (name : String) : Except ShapeError String :=
  match a.header? name with
  | some s => .ok s
  | none => .error (.malformed ("missing " ++ name ++ " header"))

/-- The shape of an answer and the place that it reaches. -/
def answerPosition (a : Answer) : Except ShapeError Position := do
  let handle ← neededHeader a "fieldsync-handle"
  let offset ← neededHeader a "fieldsync-offset"
  match LogOffset.ofText? offset with
  | some o => return ⟨⟨handle⟩, o⟩
  | none => throw (.malformed (DecodeError.invalidOffset offset).message)

/-- What an answer of the stream says; messages that cannot be read are left out. -/
def readShape (net : Network) (a : Answer) : Except ShapeError ShapeResponse := do
  if a.status = 409 then return .mustRefetch
  if !isSuccess a.status then throw (.ofStatus a.status a.detail)
  let p ← answerPosition a
  match a.read? (.list .json) with
  | none => throw (.transient ("reading shape body: " ++ net.unreadable))
  | some vs =>
    return .batch ⟨p.handle, p.offset, vs.filterMap fun v => (ShapeMessage.decode.ofJson v).toOption⟩

def fetchShape (api : Api) (net : Network) (r : ShapeRequest) : Except ShapeError ShapeResponse := do
  match send net (← api.shapeRequest r) with
  | .ok a => readShape net a
  | .error reason => throw (.transient reason)

end FieldReplica.Http.Api
