import FieldReplica.Proofs.Merging
import FieldReplica.Proofs.Run

/-!
# Updates and the rows that show them

Before an update is sent it is put into the row at hand, and when its confirmation stays away the server's row
is asked whether it shows the update. The two agree: a row of the server shows the update exactly if, in the
columns that the update names, it equals the row that the update was put into.
-/
namespace FieldReplica

namespace Row

variable {R : Type} [Row R] {s s' : R} {changes : ChangeSet}

theorem applyChanges_eq_ok : applyChanges s changes = .ok s' ↔ changes.isEmpty = false ∧
    (changes.find? (keyField R)).any (· ≠ .string (key s)) = false ∧
    (changes.keys.find? fun name => (column? name : Option (Column R)).isNone) = none ∧
    assignAll changes.entries s = .ok s' := by
  rw [applyChanges]
  cases changes.isEmpty with
  | true => simp
  | false =>
    cases (changes.find? (keyField R)).any (· ≠ .string (key s)) with
    | true => simp
    | false =>
      cases hunknown : changes.keys.find? fun name => (column? name : Option (Column R)).isNone with
      | some name => simp
      | none => cases assignAll changes.entries s <;> simp

/-- What a change set does to the row at hand it does to every row. -/
theorem exists_sets_applyChanges (hsep : (schema : Schema R).Separate)
    (h : applyChanges s changes = .ok s') : ∃ f, (schema : Schema R).Sets changes.keys f ∧ f s = s' ∧
      ∀ x : R, assignAll changes.entries x = .ok (f x) := by
  obtain ⟨_,_,_,ha⟩ := applyChanges_eq_ok.mp h
  obtain ⟨f,hf,hfx⟩ := exists_sets_assignAll hsep ha
  exact ⟨f,hf,Except.ok.inj ((hfx s).symm.trans ha),hfx⟩

/-- A change set that was applied may be applied again, and changes nothing then. -/
theorem applyChanges_again (hsep : (schema : Schema R).Separate) (h : applyChanges s changes = .ok s') :
    applyChanges s' changes = .ok s' := by
  obtain ⟨hempty,hkey,hknown,_⟩ := applyChanges_eq_ok.mp h
  obtain ⟨f,hf,rfl,hfx⟩ := exists_sets_applyChanges hsep h
  refine applyChanges_eq_ok.mpr ⟨hempty,?_,hknown,?_⟩
  · rw [key_applyChanges h]
    exact hkey
  · rw [hfx,hf.again hsep]

end Row

namespace Mutation

variable {R : Type} [Row R] {s s' t : R} {changes : ChangeSet} {name : String}

theorem sameColumn_iff : sameColumn s t name = true ↔
    ∀ c : Column R, Row.column? name = some c → c.write s = c.write t := by
  rw [sameColumn]
  cases hc : (Row.column? name : Option (Column R)) with
  | none => simp
  | some c => simp

/-- An update is looked for as if its values were put into the object of the server's row and that object were
read again. -/
theorem isReflectedBy_update_eq (hsep : (Row.schema : Schema R).Separate) (key : String) (t : R) :
    (Mutation.update key changes).isReflectedBy (some t) =
      match Decoder.ofJson Row.decode (Row.merged t changes) with
      | .ok patched => changes.keys.all (sameColumn t patched)
      | .error _ => false := by
  rw [isReflectedBy]
  cases ha : Row.assignAll changes.entries t with
  | ok patched => rw [(Row.decode_merged_iff hsep).mpr ha]
  | error e =>
    cases hd : (Decoder.ofJson Row.decode (Row.merged t changes) : Except DecodeError R) with
    | ok patched => cases ((Row.decode_merged_iff hsep).mp hd).symm.trans ha
    | error e' => rfl

/-- The server's row shows an update exactly if it equals the patched row in the columns that the update
names. -/
theorem isReflectedBy_update_iff (hsep : (Row.schema : Schema R).Separate)
    (h : Row.applyChanges s changes = .ok s') (key : String) (t : R) :
    (Mutation.update key changes).isReflectedBy (some t) = true ↔
      ∀ name ∈ changes.keys, sameColumn t s' name = true := by
  obtain ⟨f,hf,rfl,hfx⟩ := Row.exists_sets_applyChanges hsep h
  -- The server's row and the row at hand get the same values in the columns that are named.
  have hsame : ∀ name ∈ changes.keys, sameColumn t (f t) name = true ↔ sameColumn t (f s) name = true := by
    intro name hname
    rw [sameColumn_iff,sameColumn_iff]
    refine forall_congr' fun c => forall_congr' fun hc => ?_
    obtain ⟨hmem,hn⟩ := Row.column?_mem hc
    rw [hf.named c hmem (hn ▸ hname) t s]
  simp only [isReflectedBy,hfx,List.all_eq_true]
  exact forall_congr' fun name => forall_congr' fun hname => hsame name hname

private theorem isReflectedBy_self_iff (hsep : (Row.schema : Schema R).Separate)
    (h : Row.applyChanges s changes = .ok s') (key : String) :
    (Mutation.update key changes).isReflectedBy (some s) = true ↔ s' = s := by
  obtain ⟨f,hf,rfl,hfx⟩ := Row.exists_sets_applyChanges hsep h
  rw [isReflectedBy_update_iff hsep h,hf.fixed_iff hsep]
  constructor
  · intro hall c hc hn
    exact (sameColumn_iff.mp (hall c.name hn) c (hsep.column?_of_mem hc)).symm
  · intro hall name hname
    rw [sameColumn_iff]
    intro c hc
    obtain ⟨hmem,hn⟩ := Row.column?_mem hc
    exact (hall c hmem (hn ▸ hname)).symm

end Mutation

namespace Entity

/-- Two entities are equal in the column of a name. A name that is no column's has nothing to differ in. -/
def Agree (t s : Entity) : String → Prop
  | "entity_id" => t.entityId = s.entityId
  | "status" => t.status = s.status
  | "project_id" => t.projectId = s.projectId
  | "task_id" => t.taskId = s.taskId
  | "osm_id" => t.osmId = s.osmId
  | "submission_ids" => t.submissionIds = s.submissionIds
  | "geometry" => t.geometry = s.geometry
  | "created_by" => t.createdBy = s.createdBy
  | _ => True

theorem sameColumn_iff_agree (t s : Entity) (name : String) :
    Mutation.sameColumn t s name = true ↔ t.Agree s name := by
  cases hc : (Row.column? name : Option (Column Entity)) with
  | some c =>
    have hsame : Mutation.sameColumn t s name = true ↔ c.write t = c.write s := by
      simp [Mutation.sameColumn,hc]
    obtain ⟨hmem,rfl⟩ := Row.column?_mem hc
    rw [hsame]
    simp only [Row.schema,columns,List.mem_cons,List.not_mem_nil,or_false] at hmem
    rcases hmem with rfl | rfl | rfl | rfl | rfl | rfl | rfl | rfl
    · exact Decoder.reads_string.inj
    · exact Decoder.reads_status.inj
    · exact Decoder.reads_int64.inj
    · exact Decoder.reads_int64.inj
    · exact Decoder.reads_osmId.inj
    · exact (Decoder.reads_list Decoder.reads_string).inj
    · exact Decoder.reads_optionalText.inj
    · exact Decoder.reads_optionalText.inj
  | none =>
    have hsame : Mutation.sameColumn t s name = true := by rw [Mutation.sameColumn,hc]
    refine iff_of_true hsame ?_
    unfold Agree
    split
    case h_9 => trivial
    all_goals cases hc

/-- If a change set applies to an entity then the result is what the entity's own object, with the new values
in it, is read as, and a row of the server is compared with what its object is read as when they are in it. That
row shows the update exactly if it equals the result in every column that is named. The result shows the update
and takes it again unchanged, and the entity itself shows it exactly if the update was none. -/
theorem reflected_iff_agree {s s' : Entity} {changes : ChangeSet}
    (h : Row.applyChanges s changes = .ok s') :
    Decoder.ofJson Row.decode (Row.merged s changes) = .ok s' ∧
    (∀ key t, ∃ patched : Entity, Decoder.ofJson Row.decode (Row.merged t changes) = .ok patched ∧
      (Mutation.update key changes).isReflectedBy (some t) = changes.keys.all (Mutation.sameColumn t patched)) ∧
    (∀ key (t : Entity), (Mutation.update key changes).isReflectedBy (some t) = true ↔
      ∀ name ∈ changes.keys, t.Agree s' name) ∧
    (∀ key, (Mutation.update key changes).isReflectedBy (some s') = true) ∧
    Row.applyChanges s' changes = .ok s' ∧
    ∀ key, (Mutation.update key changes).isReflectedBy (some s) = true ↔ s' = s := by
  have hagain := Row.applyChanges_again separate h
  refine ⟨?_,?_,?_,?_,hagain,?_⟩
  · exact (Row.decode_merged_iff separate).mpr (Row.applyChanges_eq_ok.mp h).2.2.2
  · intro key t
    obtain ⟨f,_,_,hfx⟩ := Row.exists_sets_applyChanges separate h
    have hpatched := (Row.decode_merged_iff separate).mpr (hfx t)
    refine ⟨f t,hpatched,?_⟩
    rw [Mutation.isReflectedBy_update_eq separate,hpatched]
  · intro key t
    rw [Mutation.isReflectedBy_update_iff separate h]
    exact forall_congr' fun name => forall_congr' fun _ => sameColumn_iff_agree t s' name
  · intro key
    exact (Mutation.isReflectedBy_self_iff separate hagain key).mpr rfl
  · exact Mutation.isReflectedBy_self_iff separate h

/-- A number for the map identifier, which is kept as text, and null for a column that may be missing. -/
def loosely : ChangeSet := .ofList [("osm_id",.int 555),("geometry",.null)]

/-- The entity of those values, whatever its state is on the server. -/
theorem reflected_iff_agree_loosely :
    Row.applyChanges (Entity.inState "E1" .ready) loosely =
      .ok { Entity.inState "E1" .ready with osmId := "555" } ∧
    (Mutation.update "E1" loosely).isReflectedBy
      (some { Entity.inState "E1" .validated with osmId := "555" }) = true ∧
    (Mutation.update "E1" loosely).isReflectedBy (some (Entity.inState "E1" .ready)) = false := by
  have h : Row.applyChanges (Entity.inState "E1" .ready) loosely =
      .ok { Entity.inState "E1" .ready with osmId := "555" } := by
    decide +kernel
  obtain ⟨_,_,hreflected,_,_,hself⟩ := reflected_iff_agree h
  refine ⟨h,?_,?_⟩
  · rw [hreflected]
    intro name hname
    have hkeys : loosely.keys = ["geometry","osm_id"] := by decide +kernel
    rw [hkeys] at hname
    rcases List.mem_pair.mp hname with rfl | rfl <;> rfl
  · rw [Bool.eq_false_iff,ne_eq,hself]
    decide

end Entity
end FieldReplica
