import FieldReplica.Mutation.Basic
import FieldReplica.Proofs.Table

/-!
# Patches keep the key

A change set that applies to a row gives a row of the same key, since it may name the key's column only
with the key that the row has.
-/
namespace FieldReplica

namespace Schema

variable {R : Type} {s : Schema R} {name : String}

theorem column?_eq_some {c : Column R} (h : s.column? name = some c) : c ∈ s.columns ∧ c.name = name := by
  rw [column?] at h
  exact ⟨List.mem_of_find?_eq_some h,by simpa using List.find?_some h⟩

theorem column?_eq_none (h : s.column? name = none) : ∀ c ∈ s.columns, c.name ≠ name := by
  intro c hc hn
  exact absurd (decide_eq_true hn) (List.find?_eq_none.mp h c hc)

end Schema

namespace Row

variable {R : Type} [Row R]

theorem column?_mem {name : String} {c : Column R} (h : column? name = some c) :
    c ∈ (schema : Schema R).columns ∧ c.name = name := Schema.column?_eq_some h

private theorem key_assign {name : String} {v : Json} {r s : R} (h : assign name v r = .ok s)
    (hk : name = keyField R → v = .string (key r)) : key s = key r := by
  rw [assign] at h
  cases hc : (column? name : Option (Column R)) with
  | none =>
    simp only [hc,Except.ok.injEq] at h
    rw [h]
  | some c =>
    simp only [hc] at h
    obtain ⟨hm,hn⟩ := column?_mem hc
    cases hr : c.read.ofJson v with
    | error e => rw [hr] at h; cases h
    | ok f =>
      rw [hr] at h
      obtain rfl : f r = s := Except.ok.inj h
      by_cases hkey : c.name = keyField R
      · obtain ⟨k,hdoc,hf⟩ := key_of_read c hm hkey _ _ f hr
        rw [hk (hn ▸ hkey)] at hdoc
        have he : key r = k := by simpa [Doc.ofJson] using hdoc
        rw [hf,he]
      · exact key_read c hm hkey _ _ f hr r

private theorem key_assignAll {l : List (String × Json)} {r s : R} (h : assignAll l r = .ok s)
    (hk : ∀ e ∈ l, e.1 = keyField R → e.2 = .string (key r)) : key s = key r := by
  induction l generalizing r with
  | nil => rw [Except.ok.inj h]
  | cons e l ih =>
    obtain ⟨name,v⟩ := e
    rw [assignAll] at h
    cases ha : assign name v r with
    | error e => rw [ha] at h; cases h
    | ok t =>
      rw [ha] at h
      have ht : key t = key r := key_assign ha (hk _ List.mem_cons_self)
      rw [ih h (fun e he hn => ht ▸ hk e (List.mem_cons_of_mem _ he) hn),ht]

theorem key_applyChanges {r s : R} {changes : ChangeSet} (h : applyChanges r changes = .ok s) :
    key s = key r := by
  rw [applyChanges] at h
  split at h
  · cases h
  split at h
  · cases h
  · rename_i hkey
    split at h
    · cases h
    split at h
    · rename_i ha
      rw [← Except.ok.inj h]
      refine key_assignAll ha fun e he hn => ?_
      have hv : changes.find? (keyField R) = some e.2 := hn ▸ Table.mem_entries.mp he
      simpa [hv] using hkey
    · cases h

end Row

namespace Mutation

variable {R : Type} [Row R]

/-- The value under the key once a mutation has been made, given the value before it. -/
def outcome? : Mutation R → Option R → Option R
  | .insert row, _ => some row
  | .delete _, _ => none
  | .update _ changes, some row => (Row.applyChanges row changes).toOption
  | .update _ _, none => none

end Mutation
end FieldReplica
