import FieldReplica.Proofs.Reflection
import FieldReplica.Proofs.Spelling

/-!
# Patches change what they say

A change set goes into a row if it says something, names columns only, leaves the key as it is, and gives each
column that it names a value which that column can read. Nothing else matters: not what other columns are given,
and not what the row has. The row that comes out has what the change set says, and what it had before otherwise.
-/
namespace FieldReplica

namespace Schema

variable {R : Type} {s : Schema R} {c : Column R}

/-- A value stands for something in a column exactly if the column can read it. -/
theorem Separate.exists_holds_iff (h : s.Separate) (hc : c ∈ s.columns) {v : Json} :
    (∃ r, Holds c v r) ↔ ∃ f, c.read.ofJson v = .ok f := by
  constructor
  · rintro ⟨_,f,hf,_⟩
    exact ⟨f,hf⟩
  · rintro ⟨f,hf⟩
    exact ⟨f s.blank,(h.shows_iff hc hf s.blank _).mpr rfl⟩

private theorem Separate.holds_write_iff (h : s.Separate) (hc : c ∈ s.columns) {x r : R} :
    Holds c (c.write x) r ↔ c.write r = c.write x := by
  obtain ⟨f,hf,hfx⟩ := h.again c hc .value x trivial
  rw [Holds,h.shows_iff hc hf x r,hfx]

end Schema

namespace Row

variable {R : Type} [Row R] {s t : R} {changes : ChangeSet}

/-- A change set says something, names columns only and keeps the key of a row. -/
structure Admits (s : R) (changes : ChangeSet) : Prop where
  nonempty : changes.keys ≠ []
  known : ∀ name ∈ changes.keys, (column? name : Option (Column R)).isSome = true
  key : ∀ v, changes.find? (keyField R) = some v → v = .string (key s)

/-- To apply a change set is to read the row's object with the new values in it, if the row admits them. -/
theorem applyChanges_iff_decode (hsep : (schema : Schema R).Separate) :
    applyChanges s changes = .ok t ↔ Admits s changes ∧ Decoder.ofJson decode (merged s changes) = .ok t := by
  have hnonempty : changes.isEmpty = false ↔ changes.keys ≠ [] := by
    rw [Table.isEmpty,Table.keys,ne_eq,List.map_eq_nil_iff]
    exact List.isEmpty_eq_false_iff
  have hkey : (changes.find? (keyField R)).any (· ≠ .string (key s)) = false ↔
      ∀ v, changes.find? (keyField R) = some v → v = .string (key s) := by
    cases changes.find? (keyField R) <;> simp
  have hknown : (changes.keys.find? fun name => (column? name : Option (Column R)).isNone) = none ↔
      ∀ name ∈ changes.keys, (column? name : Option (Column R)).isSome = true := by
    simp [Option.isSome_iff_ne_none]
  rw [applyChanges_eq_ok,hnonempty,hkey,hknown,decode_merged_iff hsep]
  constructor
  · rintro ⟨hs,hk,hn,ha⟩
    exact ⟨⟨hs,hn,hk⟩,ha⟩
  · rintro ⟨⟨hs,hn,hk⟩,ha⟩
    exact ⟨hs,hk,hn,ha⟩

/-- The row's object with the new values in it is read as the row that has them and is otherwise the same. -/
theorem decode_merged_iff_holds (hsep : (schema : Schema R).Separate) :
    Decoder.ofJson decode (merged s changes) = .ok t ↔ ∀ c ∈ (schema : Schema R).columns,
      (∀ v, changes.find? c.name = some v → Schema.Holds c v t) ∧
      (changes.find? c.name = none → c.write t = c.write s) := by
  refine (Schema.decode_columns_iff hsep trivial).trans (forall_congr' fun c => forall_congr' fun hc => ?_)
  cases changes.find? c.name with
  | some v => simp
  | none => simp [hsep.holds_write_iff hc]

/-- A change set applies exactly if the row admits it and each value can be read on its own. -/
theorem exists_applyChanges_iff (hsep : (schema : Schema R).Separate) :
    (∃ t, applyChanges s changes = .ok t) ↔ Admits s changes ∧
      ∀ c ∈ (schema : Schema R).columns, ∀ v, changes.find? c.name = some v → ∃ r, Schema.Holds c v r := by
  constructor
  · rintro ⟨t,ht⟩
    obtain ⟨hadmits,hdecode⟩ := (applyChanges_iff_decode hsep).mp ht
    refine ⟨hadmits,fun c hc v hv => ⟨t,?_⟩⟩
    exact ((decode_merged_iff_holds hsep).mp hdecode c hc).1 v hv
  · rintro ⟨hadmits,hreads⟩
    -- What can be read can be put into whatever row the values before it have left.
    have hall : ∀ e ∈ changes.entries, ∀ c : Column R, column? e.1 = some c →
        ∃ f, c.read.ofJson e.2 = .ok f := by
      intro e he c hc
      obtain ⟨hmem,hn⟩ := column?_mem hc
      exact (hsep.exists_holds_iff hmem).mp (hreads c hmem e.2 (hn ▸ Table.mem_entries.mp he))
    obtain ⟨t,ht⟩ := exists_assignAll hall s
    exact ⟨t,(applyChanges_iff_decode hsep).mpr ⟨hadmits,(decode_merged_iff hsep).mpr ht⟩⟩

end Row

namespace Entity

variable {s t : Entity} {changes : ChangeSet}

private theorem admits_iff : Row.Admits s changes ↔ changes.keys ≠ [] ∧ (∀ name ∈ changes.keys, name ∈ spelling.names) ∧
    ∀ v, changes.find? "entity_id" = some v → v = .string s.entityId := by
  constructor
  · rintro ⟨hnonempty,hknown,hkey⟩
    exact ⟨hnonempty,fun name hn => (spelling_fits.mem_names name).mpr (hknown name hn),hkey⟩
  · rintro ⟨hnonempty,hknown,hkey⟩
    exact ⟨hnonempty,fun name hn => (spelling_fits.mem_names name).mp (hknown name hn),hkey⟩

/-- A change set that names columns only says the same of an entity by their names as by the columns. -/
theorem forall_columns_iff (hknown : ∀ name ∈ changes.keys, name ∈ spelling.names) {P : Json → String → Prop} :
    (∀ c ∈ (Row.schema : Schema Entity).columns, ∀ v, changes.find? c.name = some v → P v c.name) ↔
      ∀ name v, changes.find? name = some v → P v name := by
  constructor
  · intro h name v hv
    have hkeys : name ∈ changes.keys := Table.mem_keys.mpr (by rw [hv]; rfl)
    obtain ⟨c,hc,rfl⟩ := List.mem_map.mp (spelling_fits.names ▸ hknown name hkeys)
    exact h c hc v hv
  · exact fun h c _ v hv => h c.name v hv

/-- A change set applies to an entity exactly if it is not empty, names columns only, gives the key's column no
other text than the key, and gives every column that it names a value which stands for something there. The
entity that comes out has the same key, has in every named column what the value stands for, and is the same in
every other. It is what the entity's object is read as when the new values are put into it. -/
theorem applyChanges_iff_spelt (s : Entity) (changes : ChangeSet) :
    ((∃ t, Row.applyChanges s changes = .ok t) ↔
      changes.keys ≠ [] ∧ (∀ name ∈ changes.keys, name ∈ spelling.names) ∧
      (∀ v, changes.find? "entity_id" = some v → v = .string s.entityId) ∧
      ∀ name v, changes.find? name = some v → ∃ r : Entity, r.Has v name) ∧
    ∀ t, Row.applyChanges s changes = .ok t →
      t.entityId = s.entityId ∧
      (∀ name v, changes.find? name = some v → t.Has v name) ∧
      (∀ name, changes.find? name = none → t.Agree s name) ∧
      Decoder.ofJson Row.decode (Row.merged s changes) = .ok t := by
  constructor
  · rw [Row.exists_applyChanges_iff separate,admits_iff,and_assoc,and_assoc]
    refine and_congr_right fun _ => and_congr_right fun hknown => and_congr_right fun _ => ?_
    rw [← forall_columns_iff hknown]
    refine forall_congr' fun c => forall_congr' fun hc => ?_
    simp only [spelling_fits.has c hc]
    rfl
  · intro t ht
    obtain ⟨hadmits,hdecode⟩ := (Row.applyChanges_iff_decode separate).mp ht
    have hcolumns := (Row.decode_merged_iff_holds separate).mp hdecode
    refine ⟨Row.key_applyChanges ht,?_,?_,hdecode⟩
    · refine (forall_columns_iff (admits_iff.mp hadmits).2.1).mp fun c hc v hv => ?_
      exact (spelling_fits.has c hc v t trivial).mp ((hcolumns c hc).1 v hv)
    · intro name hnone
      rw [← sameColumn_iff_agree,Mutation.sameColumn_iff]
      intro c hc
      obtain ⟨hmem,rfl⟩ := Row.column?_mem hc
      exact (hcolumns c hmem).2 hnone

/-- A change set of its own key, of a state that stands as an object, of a map identifier that stands as a number
and of columns that are emptied and filled. -/
def severally : ChangeSet := .ofList [("status",.object [("VALIDATED",.null)]),("osm_id",.int (-7)),
  ("entity_id",.string "E1"),("geometry",.null),("submission_ids",.array [.string "a",.string "b"])]

/-- Such a change set applies, and does not if one of its values is of another column's type. -/
theorem applyChanges_iff_spelt_severally :
    (∃ t : Entity, Row.applyChanges (inState "E1" .ready) severally = .ok t ∧ t.Has (.int (-7)) "osm_id" ∧
      t.Agree (inState "E1" .ready) "task_id") ∧
    ¬∃ t, Row.applyChanges (inState "E1" .ready) (severally.insert "task_id" (.string "8")) = .ok t := by
  constructor
  · have h : Row.applyChanges (inState "E1" .ready) severally =
        .ok { inState "E1" .validated with osmId := "-7", submissionIds := ["a","b"] } := by
      decide +kernel
    obtain ⟨_,hnamed,hothers,_⟩ := (applyChanges_iff_spelt _ _).2 _ h
    exact ⟨_,h,hnamed "osm_id" _ (by decide +kernel),hothers "task_id" (by decide +kernel)⟩
  · rw [(applyChanges_iff_spelt _ _).1]
    rintro ⟨_,_,_,hreads⟩
    obtain ⟨r,hr⟩ := hreads "task_id" (.string "8") (by decide +kernel)
    cases hr

end Entity
end FieldReplica
