import FieldReplica.Collection.Basic
import FieldReplica.Row.TaskEvent

/-!
# Questions to the two tables

The features of a task, the change of a feature's state, and the history of a task: its events in the
order in which they happened, those of one instant by their keys. The state of a task is what its
history leads to.
-/
namespace FieldReplica

namespace Entity

/-- The features of a task. -/
def forTask (rows : List Entity) (taskId : Int64) : List Entity := rows.filter (·.taskId = taskId)

/-- The change of a feature to a state. -/
def setStatus (entityId : String) (status : EntityStatus) : Mutation Entity :=
  .update entityId (Table.empty.insert "status" (Named.toJson status))

end Entity

namespace TaskEvent

/-- Whether an event stands before another one, or is that one, in a history. -/
def notAfter (a b : TaskEvent) : Bool :=
  ((compare a.createdAt b.createdAt).then (compare a.eventId b.eventId)) ≠ .gt

/-- The events of a task in the order in which they happened. -/
def history (rows : List TaskEvent) (taskId : Int64) : List TaskEvent :=
  (rows.filter (·.taskId = taskId)).mergeSort notAfter

/-- The state that the last event of a history recorded; a task without events waits to be mapped. -/
def currentStatus (history : List TaskEvent) : TaskStatus :=
  match history.getLast? with
  | some e => e.status
  | none => .unlockedToMap

end TaskEvent
end FieldReplica
