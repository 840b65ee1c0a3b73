import FieldReplica.Row.Names
import FieldReplica.Row.Entity
import FieldReplica.Stream.Offset

/-!
# Messages of the replication stream

A response of the stream is a list of messages. A message is a change of one row or a control; on the
wire nothing tells the two apart but their columns.
-/
namespace FieldReplica

/-- The number that the server gives to a transaction. -/
structure Txid where
  value : Int64
deriving DecidableEq, Repr, Inhabited

namespace Txid

def toJson (t : Txid) : Json := .int t.value.toInt

def decode : Decoder Txid := Decoder.int64.map .mk

def toText (t : Txid) : String := toString t.value.toInt

end Txid

/-- The server's name for one materialised shape. -/
structure ShapeHandle where
  name : String
deriving DecidableEq, Repr, Inhabited

namespace ShapeHandle

def toJson (h : ShapeHandle) : Json := .string h.name

def decode : Decoder ShapeHandle := Decoder.string.map .mk

end ShapeHandle

/-- What a change does to its row. -/
inductive Operation where
  | insert
  | update
  | delete
deriving DecidableEq, Repr

instance : Named Operation where
  kind := "operation"
  all := [.insert, .update, .delete]
  name
    | .insert => "insert"
    | .update => "update"
    | .delete => "delete"

/-- What a change is and which transactions made it. -/
structure ChangeHeaders where
  operation : Operation
  txids : List Txid
deriving DecidableEq, Repr

/-- A change of one row. An inserted or updated row is given in full. -/
structure ChangeMessage where
  key : String
  value : Json
  headers : ChangeHeaders
deriving DecidableEq, Repr

/-- A word of the server about the stream itself. -/
inductive Control where
  /-- The end of the log has been reached. -/
  | upToDate
  /-- The position is no longer valid. -/
  | mustRefetch
deriving DecidableEq, Repr

instance : Named Control where
  kind := "control"
  all := [.upToDate, .mustRefetch]
  name
    | .upToDate => "up-to-date"
    | .mustRefetch => "must-refetch"

/-- A message of the stream. -/
inductive ShapeMessage where
  | change (m : ChangeMessage)
  | control (c : Control)
deriving DecidableEq, Repr

namespace ChangeHeaders

def schema : Schema ChangeHeaders where
  columns := [
    .ofField "operation" .required (·.operation) (fun v h => { h with operation := v })
      Named.toJson Named.decode,
    .ofField "txids" .defaulted (·.txids) (fun v h => { h with txids := v })
      (fun ts => .array (ts.map Txid.toJson)) (.list Txid.decode)]
  blank := ⟨.insert, []⟩
  closed := false

/-- The headers of a change; no list of transactions is written if there are none. -/
def toJson (h : ChangeHeaders) : Json :=
  if h.txids = [] then .object [("operation", Named.toJson h.operation)] else schema.encode h

end ChangeHeaders

namespace ChangeMessage

def schema : Schema ChangeMessage where
  columns := [
    .ofField "key" .required (·.key) (fun v m => { m with key := v }) .string .string,
    .ofField "value" .defaulted (·.value) (fun v m => { m with value := v }) id .json,
    .ofField "headers" .required (·.headers) (fun v m => { m with headers := v })
      ChangeHeaders.toJson ChangeHeaders.schema.decode]
  blank := ⟨"", .null, ChangeHeaders.schema.blank⟩
  closed := false

def toJson (m : ChangeMessage) : Json := schema.encode m

def decode : Decoder ChangeMessage := schema.decode

end ChangeMessage

namespace Control

def headers : Schema Control where
  columns := [.ofField "control" .required id (fun v _ => v) Named.toJson Named.decode]
  blank := .upToDate
  closed := false

def schema : Schema Control where
  columns := [.ofField "headers" .required id (fun v _ => v) headers.encode headers.decode]
  blank := .upToDate
  closed := false

def toJson (c : Control) : Json := schema.encode c

def decode : Decoder Control := schema.decode

end Control

namespace ShapeMessage

def toJson : ShapeMessage → Json
  | .change m => m.toJson
  | .control c => c.toJson

/-- A message is a change if it reads as one, and else a control. -/
def decode : Decoder ShapeMessage :=
  .firstOf [ChangeMessage.decode.map .change, Control.decode.map .control]

end ShapeMessage

/-- A shape and the place in it up to which it has been received. -/
structure Position where
  handle : ShapeHandle
  offset : LogOffset
deriving DecidableEq, Repr

namespace Position

def schema : Schema Position where
  columns := [
    .ofField "handle" .required (·.handle) (fun v p => { p with handle := v })
      ShapeHandle.toJson ShapeHandle.decode,
    .ofField "offset" .required (·.offset) (fun v p => { p with offset := v })
      LogOffset.toJson LogOffset.decode]
  blank := ⟨⟨""⟩, .beforeStart⟩
  closed := false

def toJson (p : Position) : Json := schema.encode p

def decode : Decoder Position := schema.decode

end Position

/-- The positions of a project's two tables. -/
structure Positions where
  entities : Option Position
  taskEvents : Option Position
deriving DecidableEq, Repr

namespace Positions

/-- No position of either table. -/
def none : Positions := ⟨.none, .none⟩

def schema : Schema Positions where
  columns := [
    .ofField "entities" .nullable (·.entities) (fun v p => { p with entities := v })
      (Json.optional Position.toJson) (.optional Position.decode),
    .ofField "task_events" .nullable (·.taskEvents) (fun v p => { p with taskEvents := v })
      (Json.optional Position.toJson) (.optional Position.decode)]
  blank := none
  closed := false

def toJson (p : Positions) : Json := schema.encode p

def decode : Decoder Positions := schema.decode

end Positions
end FieldReplica
