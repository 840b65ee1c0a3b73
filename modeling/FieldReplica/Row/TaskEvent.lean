import FieldReplica.Row.Entity
import FieldReplica.Time.Instant

/-!
# Task events

A record of activity against a task. Events are only ever added. The history of a task is its events
in the order in which they happened, and the state of a task follows from its history.
-/
namespace FieldReplica

/-- A record of activity against a task. -/
structure TaskEvent where
  eventId : String
  event : TaskEventKind
  projectId : Int64
  taskId : Int64
  comment : Option String
  createdAt : Time.Instant
  username : String
  profileImg : Option String
  status : TaskStatus
deriving DecidableEq, Repr

namespace TaskEvent

def decodeInstant : Decoder Time.Instant :=
  Decoder.string.bind fun s =>
    match Time.Instant.ofText? s with
    | some t => .ok t
    | none => .error .invalid

def columns : List (Column TaskEvent) := [
  .ofField "event_id" .required (·.eventId) (fun v r => { r with eventId := v })
    .string .string,
  .ofField "event" .required (·.event) (fun v r => { r with event := v })
    Named.toJson Named.decode,
  .ofField "project_id" .required (·.projectId) (fun v r => { r with projectId := v })
    Entity.int64Json .int64,
  .ofField "task_id" .required (·.taskId) (fun v r => { r with taskId := v })
    Entity.int64Json .int64,
  .ofField "comment" .defaulted (·.comment) (fun v r => { r with comment := v })
    Entity.optionalText (.optional .string),
  .ofField "created_at" .required (·.createdAt) (fun v r => { r with createdAt := v })
    (fun t => .string t.toText) decodeInstant,
  .ofField "username" .required (·.username) (fun v r => { r with username := v })
    .string .string,
  .ofField "profile_img" .defaulted (·.profileImg) (fun v r => { r with profileImg := v })
    Entity.optionalText (.optional .string),
  .ofField "status" .required (·.status) (fun v r => { r with status := v })
    Named.toJson Named.decode]

/-- The event of which nothing has been read. -/
def blank : TaskEvent := ⟨"", .comment, 0, 0, none, .start, "", none, .unlockedToMap⟩

end TaskEvent

instance : Row TaskEvent where
  decEq := inferInstance
  table := "task_events"
  keyField := "event_id"
  isMutable := false
  key := TaskEvent.eventId
  withKey r k := { r with eventId := k }
  projectId := TaskEvent.projectId
  schema := ⟨TaskEvent.columns, TaskEvent.blank, false⟩
  key_withKey _ _ := rfl
  withKey_key _ := rfl
  key_of_read := by
    intro c hc hn o doc f hf
    simp only [TaskEvent.columns, List.mem_cons, List.not_mem_nil, or_false] at hc
    rcases hc with rfl | rfl | rfl | rfl | rfl | rfl | rfl | rfl | rfl
    · obtain ⟨k, hk, rfl⟩ := Column.read_ofField hf
      exact ⟨k, Decoder.eq_of_string hk, fun _ => rfl⟩
    all_goals exact absurd hn (by decide)
  key_read := by
    intro c hc hn o doc f hf r
    simp only [TaskEvent.columns, List.mem_cons, List.not_mem_nil, or_false] at hc
    rcases hc with rfl | rfl | rfl | rfl | rfl | rfl | rfl | rfl | rfl
    · exact absurd rfl hn
    all_goals obtain ⟨_, _, rfl⟩ := Column.read_ofField hf; rfl

end FieldReplica
