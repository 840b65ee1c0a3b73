import FieldReplica.Row.Basic
import FieldReplica.Row.Names

/-!
# Entities

A surveyable feature of a project. Its map identifier is kept as text, since identifiers may exceed
the numbers that some producers can write; on input a whole number is taken as its decimal text.
-/
namespace FieldReplica

/-- A surveyable feature. -/
structure Entity where
  entityId : String
  status : EntityStatus
  projectId : Int64
  taskId : Int64
  osmId : String
  submissionIds : List String
  geometry : Option String
  createdBy : Option String
deriving DecidableEq, Repr

namespace Entity

/-- A map identifier: a text, or a whole number, which stands for its decimal text. -/
def decodeOsmId : Decoder String
  | _, .number (some (.int n)) => .ok (toString n)
  | o, doc => Decoder.string o doc

def int64Json (n : Int64) : Json := .int n.toInt

def optionalText : Option String → Json := Json.optional .string

def columns : List (Column Entity) := [
  .ofField "entity_id" .required (·.entityId) (fun v r => { r with entityId := v })
    .string .string,
  .ofField "status" .required (·.status) (fun v r => { r with status := v })
    Named.toJson Named.decode,
  .ofField "project_id" .required (·.projectId) (fun v r => { r with projectId := v })
    int64Json .int64,
  .ofField "task_id" .required (·.taskId) (fun v r => { r with taskId := v })
    int64Json .int64,
  .ofField "osm_id" .required (·.osmId) (fun v r => { r with osmId := v })
    .string decodeOsmId,
  .ofField "submission_ids" .defaulted (·.submissionIds) (fun v r => { r with submissionIds := v })
    (fun ids => .array (ids.map .string)) (.list .string),
  .ofField "geometry" .defaulted (·.geometry) (fun v r => { r with geometry := v })
    optionalText (.optional .string),
  .ofField "created_by" .defaulted (·.createdBy) (fun v r => { r with createdBy := v })
    optionalText (.optional .string)]

/-- The entity of which nothing has been read. -/
def blank : Entity := ⟨"", .ready, 0, 0, "", [], none, none⟩

end Entity

instance : Row Entity where
  decEq := inferInstance
  table := "odk_entities"
  keyField := "entity_id"
  isMutable := true
  key := Entity.entityId
  withKey r k := { r with entityId := k }
  projectId := Entity.projectId
  schema := ⟨Entity.columns, Entity.blank, false⟩
  key_withKey _ _ := rfl
  withKey_key _ := rfl
  key_of_read := by
    intro c hc hn o doc f hf
    simp only [Entity.columns, List.mem_cons, List.not_mem_nil, or_false] at hc
    rcases hc with rfl | rfl | rfl | rfl | rfl | rfl | rfl | rfl
    · obtain ⟨k, hk, rfl⟩ := Column.read_ofField hf
      exact ⟨k, Decoder.eq_of_string hk, fun _ => rfl⟩
    all_goals exact absurd hn (by decide)
  key_read := by
    intro c hc hn o doc f hf r
    simp only [Entity.columns, List.mem_cons, List.not_mem_nil, or_false] at hc
    rcases hc with rfl | rfl | rfl | rfl | rfl | rfl | rfl | rfl
    · exact absurd rfl hn
    all_goals obtain ⟨_, _, rfl⟩ := Column.read_ofField hf; rfl

end FieldReplica
