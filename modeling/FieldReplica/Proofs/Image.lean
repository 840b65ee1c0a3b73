import FieldReplica.Reconciler.Basic
import FieldReplica.Proofs.Ledger

/-!
# Full images

A full image of the table leaves the keys alone whose record outlives it. Every other key ends with
exactly the value that the image has for it.
-/
namespace FieldReplica

variable {R : Type} [Row R]

/-- The rows of a full image under their keys, the last row of a key counting. -/
def imageOf (rows : List R) : Table String R := .ofList (rows.map fun row => (Row.key row,row))

theorem find?_imageOf (rows : List R) (key : String) :
    (imageOf rows).find? key = lastUnder key (rowEntries rows) none := by
  rw [imageOf,Table.find?_ofList,List.map_map]
  rfl

theorem find?_imageOf_eq_none {rows : List R} {key : String} :
    (imageOf rows).find? key = none ↔ ¬ ∃ row ∈ rows, Row.key row = key := by
  rw [find?_imageOf]
  rcases lastUnder_cases key (rowEntries rows) none with ⟨hv,hl⟩ | ⟨e,he,hk,hv⟩
  · refine ⟨fun _ => ?_,fun _ => hv⟩
    rintro ⟨row,hrow,hk⟩
    exact hl (Row.key row,some row) (List.mem_map.mpr ⟨row,hrow,rfl⟩) hk
  · obtain ⟨row,hrow,rfl⟩ := List.mem_map.mp he
    rw [hv]
    exact ⟨nofun,fun h => absurd ⟨row,hrow,hk⟩ h⟩

theorem filed_imageOf (rows : List R) (key : String) : FiledUnder key ((imageOf rows).find? key) := by
  rw [find?_imageOf]
  exact filedUnder_lastUnder (filedUnder_none key) rows

/-- The rows of a table, each filed under its own key, make the table again. -/
theorem imageOf_values {t : Table String R} (h : ∀ k, FiledUnder k (t.find? k)) :
    imageOf t.values = t := by
  have he : t.values.map (fun row => (Row.key row,row)) = t.entries := by
    rw [Table.values,List.map_map]
    refine (List.map_congr_left ?_).trans (List.map_id _)
    intro e he
    exact Prod.ext (h e.1 e.2 (Table.mem_entries.mp he)) rfl
  rw [imageOf,he,Table.ofList_entries]

namespace Reconciler

/-- The writes of a full image: removals, then the values of the confirmed keys, then the rows. -/
def imageWrites (r : Reconciler R) (image : Table String R) : List (Write R) :=
  r.removals image ++
    (r.ledger.reflectedBy image).map (fun c => .restore c.key (image.find? c.key)) ++
    (image.entries.filter fun e => !(r.ledger.rebase image).pending.contains e.1).map fun e => .upsert e.2

theorem rows_applySnapshot (r : Reconciler R) (rows : List R) (resync : Bool) :
    (r.applySnapshot rows resync).1.store.rows =
      Write.applyAll r.store.rows (r.imageWrites (imageOf rows)) := by
  rw [applySnapshot]
  cases resync <;> rfl

theorem ledger_applySnapshot (r : Reconciler R) (rows : List R) (resync : Bool) :
    (r.applySnapshot rows resync).1.ledger = r.ledger.rebase (imageOf rows) := by
  rw [applySnapshot]
  cases resync <;> rfl

variable {r : Reconciler R} {image : Table String R} {key : String}

private theorem mem_removals {w : Write R} (h : w ∈ r.removals image) : ∃ k, w.entry = (k,none) ∧
    image.find? k = none ∧ r.ledger.pending.find? k = none := by
  obtain ⟨k,hk,rfl⟩ := List.mem_map.mp h
  have hn := (List.mem_filter.mp hk).2
  simp only [Table.contains_eq,Bool.and_eq_true,Bool.not_eq_true',Option.isSome_eq_false_iff,
    Option.isNone_iff_eq_none] at hn
  exact ⟨k,rfl,hn.1,hn.2⟩

/-- Every write of an image gives its key what the image has there, and touches no record that outlives
the image. -/
theorem mem_imageWrites (hi : ∀ k, FiledUnder k (image.find? k)) {w : Write R}
    (h : w ∈ r.imageWrites image) : w.entry.2 = image.find? w.entry.1 ∧
      (r.ledger.rebase image).pending.find? w.entry.1 = none := by
  rcases List.mem_append.mp h with h | h
  · rcases List.mem_append.mp h with h | h
    · obtain ⟨k,hw,hk,hp⟩ := mem_removals h
      rw [hw,Ledger.find?_rebase,hp]
      exact ⟨hk.symm,rfl⟩
    · obtain ⟨c,hc,rfl⟩ := List.mem_map.mp h
      obtain ⟨p,hp,_,ht⟩ := Ledger.mem_reflectedBy.mp hc
      rw [Write.entry_restore (hi c.key),Ledger.find?_rebase,hp]
      exact ⟨rfl,by simp [Pending.afterImage,ht]⟩
  · obtain ⟨e,he,rfl⟩ := List.mem_map.mp h
    obtain ⟨he,hn⟩ := List.mem_filter.mp he
    have hv := Table.mem_entries.mp he
    have hw : (Write.upsert e.2).entry = (e.1,some e.2) := congrArg (·,some e.2) (hi e.1 e.2 hv)
    simp only [Table.contains_eq,Bool.not_eq_true',Option.isSome_eq_false_iff,
      Option.isNone_iff_eq_none] at hn
    rw [hw]
    exact ⟨hv.symm,hn⟩

/-- A record that outlives an image keeps what is shown on it. -/
theorem find?_imageWrites_of_some (hi : ∀ k, FiledUnder k (image.find? k)) {p : Pending R}
    (hp : (r.ledger.rebase image).pending.find? key = some p) (rows : Table String R) :
    (Write.applyAll rows (r.imageWrites image)).find? key = rows.find? key := by
  rw [Write.find?_applyAll,lastUnder_of_ne]
  rintro e he rfl
  obtain ⟨w,hw,rfl⟩ := List.mem_map.mp he
  rw [(mem_imageWrites hi hw).2] at hp
  cases hp

/-- A key without a record after an image shows what the image has for it. -/
theorem find?_imageWrites_of_none (hi : ∀ k, FiledUnder k (image.find? k))
    (hp : (r.ledger.rebase image).pending.find? key = none) :
    (Write.applyAll r.store.rows (r.imageWrites image)).find? key = image.find? key := by
  rw [Write.find?_applyAll]
  apply lastUnder_eq
  · rintro e he rfl
    obtain ⟨w,hw,rfl⟩ := List.mem_map.mp he
    exact (mem_imageWrites hi hw).1
  · cases hv : image.find? key with
    | some row =>
      have hk : Row.key row = key := hi key row hv
      refine .inr ⟨(key,some row),List.mem_map.mpr ⟨.upsert row,?_,by simp [Write.entry,hk]⟩,rfl⟩
      refine List.mem_append_right _ (List.mem_map.mpr ⟨(key,row),List.mem_filter.mpr ⟨?_,?_⟩,rfl⟩)
      · exact Table.mem_entries.mpr hv
      · simp [Table.contains_eq,hp]
    | none =>
      cases hq : r.ledger.pending.find? key with
      | some p =>
        -- The record is gone, so the image shows its mutation and puts back the value.
        rw [Ledger.find?_rebase,hq,Option.bind_some,Pending.afterImage] at hp
        split at hp
        · next ht =>
          obtain ⟨t,ht⟩ := Option.isSome_iff_exists.mp ht
          have hc : ⟨p.id,key,t⟩ ∈ r.ledger.reflectedBy image :=
            Ledger.mem_reflectedBy.mpr ⟨p,hq,rfl,ht⟩
          refine .inr ⟨(key,none),List.mem_map.mpr ⟨.restore key (image.find? key),?_,?_⟩,rfl⟩
          · exact List.mem_append_left _ (List.mem_append_right _ (List.mem_map.mpr ⟨_,hc,rfl⟩))
          · rw [Write.entry_restore (hi key),hv]
        · cases hp
      | none =>
        cases hs : r.store.rows.find? key with
        | none => exact .inl rfl
        | some row =>
          refine .inr ⟨(key,none),List.mem_map.mpr ⟨.delete key,?_,rfl⟩,rfl⟩
          refine List.mem_append_left _ (List.mem_append_left _ (List.mem_map.mpr ⟨key,?_,rfl⟩))
          refine List.mem_filter.mpr ⟨Table.mem_keys.mpr (by rw [hs]; rfl),?_⟩
          simp [Table.contains_eq,hv,hq]

end Reconciler
end FieldReplica
