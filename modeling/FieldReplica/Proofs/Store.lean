import FieldReplica.Store.Basic
import FieldReplica.Proofs.Table

/-!
# Batches of writes

What stands under a key after a batch: the value that the batch gives the key last. A write that puts
back a value under a key touches that key alone, provided that the value is a row of the key.
-/
namespace FieldReplica

variable {R : Type} [Row R]

/-- A value that may stand under a key: none, or a row of that key. -/
def FiledUnder (key : String) (v : Option R) : Prop := ∀ row, v = some row → Row.key row = key

theorem filedUnder_none (key : String) : FiledUnder key (none : Option R) := by
  intro row h
  cases h

theorem filedUnder_some {key : String} {row : R} (h : Row.key row = key) :
    FiledUnder key (some row) := by
  intro s hs
  rw [← Option.some.inj hs,h]

/-- The rows of a list, each given to its own key. -/
def rowEntries (rows : List R) : List (String × Option R) := rows.map fun row => (Row.key row,some row)

theorem filedUnder_lastUnder {key : String} {v : Option R} (h : FiledUnder key v) (rows : List R) :
    FiledUnder key (lastUnder key (rowEntries rows) v) := by
  rcases lastUnder_cases key (rowEntries rows) v with ⟨hv,_⟩ | ⟨e,he,hk,hv⟩
  · rw [hv]
    exact h
  · obtain ⟨row,_,rfl⟩ := List.mem_map.mp he
    rw [hv]
    exact filedUnder_some hk

namespace Write

/-- The key that a write touches, and the value that it leaves there. -/
def entry : Write R → String × Option R
  | .upsert row => (Row.key row,some row)
  | .delete key => (key,none)

theorem entry_restore {key : String} {v : Option R} (h : FiledUnder key v) :
    (restore key v).entry = (key,v) := by
  cases v with
  | none => rfl
  | some row => exact congrArg (·,some row) (h row rfl)

theorem find?_apply (rows : Table String R) (w : Write R) (key : String) :
    (w.apply rows).find? key = if w.entry.1 = key then w.entry.2 else rows.find? key := by
  cases w with
  | upsert row =>
    rw [apply,Table.find?_insert_of]
    simp only [entry,eq_comm]
  | delete k =>
    rw [apply,Table.find?_erase_of]
    simp only [entry,eq_comm]

theorem find?_applyAll (ws : List (Write R)) (rows : Table String R) (key : String) :
    (applyAll rows ws).find? key = lastUnder key (ws.map entry) (rows.find? key) := by
  induction ws generalizing rows with
  | nil => rfl
  | cons w ws ih =>
    change (applyAll (w.apply rows) ws).find? key = _
    rw [ih,List.map_cons,lastUnder_cons,find?_apply]

theorem applyAll_append (ws ws' : List (Write R)) (rows : Table String R) :
    applyAll rows (ws ++ ws') = applyAll (applyAll rows ws) ws' := List.foldl_append

/-- A single write touches one key. -/
theorem find?_single {w : Write R} {key : String} {v : Option R} (h : w.entry = (key,v))
    (rows : Table String R) (key' : String) :
    (applyAll rows [w]).find? key' = if key' = key then v else rows.find? key' := by
  rw [find?_applyAll,List.map_singleton,lastUnder_cons,lastUnder_nil,h]
  simp only [eq_comm]

theorem find?_restore {key : String} {v : Option R} (h : FiledUnder key v) (rows : Table String R)
    (key' : String) : (applyAll rows [restore key v]).find? key' =
      if key' = key then v else rows.find? key' :=
  find?_single (entry_restore h) rows key'

theorem changes_append (rows : Table String R) (ws ws' : List (Write R)) :
    changes rows (ws ++ ws') = changes rows ws ++ changes (applyAll rows ws) ws' := by
  induction ws generalizing rows with
  | nil => rfl
  | cons w ws ih =>
    rw [List.cons_append,changes,changes,ih,List.append_assoc]
    rfl

/-- A write of what stands there already does nothing. -/
theorem apply_of_shown {rows : Table String R} {w : Write R} (h : rows.find? w.entry.1 = w.entry.2) :
    w.apply rows = rows ∧ w.change? rows = none := by
  constructor
  · apply Table.ext_find?
    intro key
    rw [find?_apply]
    split
    · next hk => rw [← hk,h]
    · rfl
  · cases w with
    | upsert row =>
      have hrow : rows.find? (Row.key row) = some row := h
      rw [change?,hrow]
      exact if_pos rfl
    | delete key =>
      have hnone : rows.find? key = none := h
      rw [change?,hnone]
      rfl

private theorem applyAll_of_shown {rows : Table String R} {ws : List (Write R)}
    (h : ∀ w ∈ ws, rows.find? w.entry.1 = w.entry.2) :
    applyAll rows ws = rows ∧ changes rows ws = [] := by
  induction ws with
  | nil => exact ⟨rfl,rfl⟩
  | cons w ws ih =>
    obtain ⟨hrows,hchanges⟩ := ih fun w' hw' => h w' (List.mem_cons_of_mem _ hw')
    obtain ⟨hsame,hnone⟩ := apply_of_shown (h w List.mem_cons_self)
    refine ⟨?_,?_⟩
    · change applyAll (w.apply rows) ws = rows
      rw [hsame,hrows]
    · rw [changes,hsame,hnone,hchanges]
      rfl

/-- Writes that give a key always the same value may be made in any order. -/
theorem applyAll_perm {ws ws' : List (Write R)} (hperm : ws'.Perm ws) {v : String → Option R}
    (h : ∀ w ∈ ws, w.entry.2 = v w.entry.1) (rows : Table String R) :
    applyAll rows ws' = applyAll rows ws := by
  have hentry : ∀ key, ∀ e ∈ ws.map entry, e.1 = key → e.2 = v key := by
    rintro key e he rfl
    obtain ⟨w,hw,rfl⟩ := List.mem_map.mp he
    exact h w hw
  have hmem : ∀ e, e ∈ ws'.map entry ↔ e ∈ ws.map entry := fun e => (hperm.map entry).mem_iff
  apply Table.ext_find?
  intro key
  rw [find?_applyAll,find?_applyAll]
  by_cases hkey : ∃ e ∈ ws.map entry, e.1 = key
  · obtain ⟨e,he,hk⟩ := hkey
    rw [lastUnder_eq (hentry key) (.inr ⟨e,he,hk⟩)]
    exact lastUnder_eq (fun e he => hentry key e ((hmem e).mp he)) (.inr ⟨e,(hmem e).mpr he,hk⟩)
  · have hne : ∀ e ∈ ws.map entry, e.1 ≠ key := fun e he hk => hkey ⟨e,he,hk⟩
    rw [lastUnder_of_ne hne,lastUnder_of_ne fun e he => hne e ((hmem e).mp he)]

end Write

/-- A batch of writes of what stands there already leaves the store as it is, with its version and its reports. -/
theorem Store.write_of_shown {s : Store R} {ws : List (Write R)}
    (h : ∀ w ∈ ws, s.rows.find? w.entry.1 = w.entry.2) : s.write ws = s := by
  obtain ⟨hrows,hchanges⟩ := Write.applyAll_of_shown h
  simp only [Store.write,Store.applyBatch,hrows,hchanges,List.isEmpty_nil,if_true,List.map_nil,
    Channel.sendAll,List.append_nil]

end FieldReplica
