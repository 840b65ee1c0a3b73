/-!
# Keyed tables

A finite map kept as its entries in strictly ascending key order. The order is part of the type, so
the listed rows of a table, and with them every order that a reader of the table sees, follow from
the map alone: two tables with the same look-ups are equal (`Table.ext_find?`).
-/
namespace FieldReplica

/-- A finite map from `κ` to `α`, listed in strictly ascending key order. -/
structure Table (κ : Type) (α : Type) [Ord κ] where
  entries : List (κ × α)
  ascending : entries.Pairwise (fun a b => compare a.1 b.1 = .lt)

namespace Table

variable {κ α β : Type} [Ord κ]

instance [DecidableEq κ] [DecidableEq α] : DecidableEq (Table κ α)
  | ⟨a, _⟩, ⟨b, _⟩ =>
    if h : a = b then isTrue (by subst h; rfl) else isFalse (fun e => h (congrArg Table.entries e))

def empty : Table κ α := ⟨[], .nil⟩

instance : Inhabited (Table κ α) := ⟨empty⟩

def lookup (k : κ) : List (κ × α) → Option α
  | [] => none
  | (k', v) :: rest => if compare k k' = .eq then some v else lookup k rest

/-- The value stored under `k`. -/
def find? (t : Table κ α) (k : κ) : Option α := lookup k t.entries

def contains (t : Table κ α) (k : κ) : Bool := (t.find? k).isSome

def keys (t : Table κ α) : List κ := t.entries.map (·.1)

def values (t : Table κ α) : List α := t.entries.map (·.2)

def size (t : Table κ α) : Nat := t.entries.length

def isEmpty (t : Table κ α) : Bool := t.entries.isEmpty

/-- Put `v` under `k` where its place in ascending order is, replacing what was there. -/
def insertEntry (k : κ) (v : α) : List (κ × α) → List (κ × α)
  | [] => [(k, v)]
  | (k', v') :: rest =>
    match compare k k' with
    | .lt => (k, v) :: (k', v') :: rest
    | .eq => (k, v) :: rest
    | .gt => (k', v') :: insertEntry k v rest

private theorem mem_insertEntry {k : κ} {v : α} {l : List (κ × α)} {e : κ × α}
    (h : e ∈ insertEntry k v l) : e = (k, v) ∨ e ∈ l := by
  induction l with
  | nil => simpa [insertEntry] using h
  | cons p rest ih =>
    obtain ⟨k', v'⟩ := p
    simp only [insertEntry] at h
    split at h <;> simp only [List.mem_cons] at h ⊢
    · exact h.imp_right fun h => h
    · exact h.imp_right .inr
    · rcases h with h | h
      · exact .inr (.inl h)
      · exact (ih h).imp_right .inr

private theorem ascending_insertEntry [Std.TransOrd κ] (k : κ) (v : α) {l : List (κ × α)}
    (h : l.Pairwise (fun a b => compare a.1 b.1 = .lt)) :
    (insertEntry k v l).Pairwise (fun a b => compare a.1 b.1 = .lt) := by
  induction l with
  | nil => simp [insertEntry]
  | cons p rest ih =>
    obtain ⟨k', v'⟩ := p
    obtain ⟨head, tail⟩ := List.pairwise_cons.mp h
    simp only [insertEntry]
    split
    · rename_i lt
      refine List.pairwise_cons.mpr ⟨fun e he => ?_, h⟩
      rcases List.mem_cons.mp he with rfl | he
      · exact lt
      · exact Std.TransCmp.lt_trans lt (head e he)
    · rename_i eq
      exact List.pairwise_cons.mpr ⟨fun e he => Std.TransCmp.lt_of_eq_of_lt eq (head e he), tail⟩
    · rename_i gt
      refine List.pairwise_cons.mpr ⟨fun e he => ?_, ih tail⟩
      rcases mem_insertEntry he with rfl | he
      · exact Std.OrientedCmp.gt_iff_lt.mp gt
      · exact head e he

def insert [Std.TransOrd κ] (t : Table κ α) (k : κ) (v : α) : Table κ α :=
  ⟨insertEntry k v t.entries, ascending_insertEntry k v t.ascending⟩

/-- The table restricted to the entries that satisfy `p`. -/
def filter (t : Table κ α) (p : κ → α → Bool) : Table κ α :=
  ⟨t.entries.filter (fun e => p e.1 e.2), t.ascending.filter _⟩

def erase (t : Table κ α) (k : κ) : Table κ α := t.filter (fun k' _ => compare k k' ≠ .eq)

/-- The table with every value replaced by its image. -/
def map (t : Table κ α) (f : κ → α → β) : Table κ β :=
  ⟨t.entries.map (fun e => (e.1, f e.1 e.2)), List.pairwise_map.mpr t.ascending⟩

/-- The table of a list of entries, the last entry of a key counting. -/
def ofList [Std.TransOrd κ] (l : List (κ × α)) : Table κ α :=
  l.foldl (fun t e => t.insert e.1 e.2) empty

@[simp] theorem find?_empty (k : κ) : (empty : Table κ α).find? k = none := rfl

private theorem lookup_insertEntry [Std.TransOrd κ] (k : κ) (v : α) (l : List (κ × α)) (k' : κ) :
    lookup k' (insertEntry k v l) = if compare k' k = .eq then some v else lookup k' l := by
  induction l with
  | nil => rfl
  | cons p rest ih =>
    obtain ⟨k'', v''⟩ := p
    simp only [insertEntry]
    split
    · rfl
    · rename_i eq
      simp only [lookup]
      by_cases h : compare k' k = .eq
      · simp [h]
      · simp only [h, if_false]
        rw [if_neg fun e => h (Std.TransCmp.eq_trans e (Std.OrientedCmp.eq_comm.mp eq))]
    · rename_i gt
      simp only [lookup, ih]
      by_cases h : compare k' k'' = .eq
      · have hk : compare k' k ≠ .eq := fun e => by
          have hkk := Std.TransCmp.eq_trans (Std.OrientedCmp.eq_comm.mp e) h
          rw [gt] at hkk
          contradiction
        simp [h, hk]
      · simp [h]

/-- Reading after a write. -/
theorem find?_insert [Std.TransOrd κ] (t : Table κ α) (k : κ) (v : α) (k' : κ) :
    (t.insert k v).find? k' = if compare k' k = .eq then some v else t.find? k' :=
  lookup_insertEntry k v t.entries k'

private theorem lookup_filter_ne [Std.TransOrd κ] (k : κ) (l : List (κ × α)) (k' : κ) :
    lookup k' (l.filter (fun e => decide (compare k e.1 ≠ .eq))) =
      if compare k' k = .eq then none else lookup k' l := by
  induction l with
  | nil => simp [lookup]
  | cons p rest ih =>
    obtain ⟨k'', v''⟩ := p
    by_cases hk : compare k k'' = .eq
    · simp only [List.filter_cons, hk, ne_eq, not_true_eq_false, decide_false, Bool.false_eq_true,
        if_false, lookup]
      rw [ih]
      by_cases h : compare k' k = .eq
      · simp [h]
      · rw [if_neg h, if_neg h, if_neg fun e => h (Std.TransCmp.eq_trans e (Std.OrientedCmp.eq_comm.mp hk))]
    · simp only [List.filter_cons, hk, ne_eq, not_false_eq_true, decide_true, if_true, lookup]
      rw [ih]
      by_cases h : compare k' k = .eq
      · have hn : compare k' k'' ≠ .eq :=
          fun e => hk (Std.TransCmp.eq_trans (Std.OrientedCmp.eq_comm.mp h) e)
        simp [h, hn]
      · simp [h]

/-- Reading after a removal. -/
theorem find?_erase [Std.TransOrd κ] (t : Table κ α) (k : κ) (k' : κ) :
    (t.erase k).find? k' = if compare k' k = .eq then none else t.find? k' :=
  lookup_filter_ne k t.entries k'

private theorem mem_of_lookup [Std.LawfulEqOrd κ] {k : κ} {v : α} {l : List (κ × α)}
    (h : lookup k l = some v) : (k, v) ∈ l := by
  induction l with
  | nil => simp [lookup] at h
  | cons p rest ih =>
    obtain ⟨k', v'⟩ := p
    simp only [lookup] at h
    split at h
    · rename_i eq
      rw [Std.LawfulEqOrd.eq_of_compare eq]
      simp_all
    · exact List.mem_cons_of_mem _ (ih h)

private theorem lookup_of_mem [Std.TransOrd κ] {k : κ} {v : α} {l : List (κ × α)}
    (asc : l.Pairwise (fun a b => compare a.1 b.1 = .lt)) (h : (k, v) ∈ l) :
    lookup k l = some v := by
  induction l with
  | nil => simp at h
  | cons p rest ih =>
    obtain ⟨k', v'⟩ := p
    obtain ⟨head, tail⟩ := List.pairwise_cons.mp asc
    rcases List.mem_cons.mp h with e | h
    · obtain ⟨rfl, rfl⟩ := Prod.mk.inj e
      simp [lookup, Std.ReflCmp.compare_self]
    · have lt := head _ h
      have ne : compare k k' ≠ .eq := fun e => by
        have := Std.OrientedCmp.eq_comm.mp e
        rw [lt] at this
        contradiction
      simp only [lookup, ne, if_false]
      exact ih tail h

theorem mem_entries_iff [Std.TransOrd κ] [Std.LawfulEqOrd κ] (t : Table κ α) (k : κ) (v : α) :
    (k, v) ∈ t.entries ↔ t.find? k = some v :=
  ⟨lookup_of_mem t.ascending, mem_of_lookup⟩

/-- A table is determined by its look-ups. -/
theorem ext_find? [Std.TransOrd κ] [Std.LawfulEqOrd κ] {s t : Table κ α}
    (h : ∀ k, s.find? k = t.find? k) : s = t := by
  obtain ⟨a, ha⟩ := s
  obtain ⟨b, hb⟩ := t
  have mem : ∀ e : κ × α, e ∈ a ↔ e ∈ b := fun e => by
    have := mem_entries_iff ⟨a, ha⟩ e.1 e.2
    rw [h, ← mem_entries_iff ⟨b, hb⟩ e.1 e.2] at this
    exact this
  have eq : a = b := by
    clear h
    induction a generalizing b with
    | nil =>
      cases b with
      | nil => rfl
      | cons p _ => exact absurd ((mem p).mpr List.mem_cons_self) (by simp)
    | cons p as ih =>
      cases b with
      | nil => exact absurd ((mem p).mp List.mem_cons_self) (by simp)
      | cons q bs =>
        obtain ⟨hp, has⟩ := List.pairwise_cons.mp ha
        obtain ⟨hq, hbs⟩ := List.pairwise_cons.mp hb
        have pq : p = q := by
          rcases List.mem_cons.mp ((mem p).mp List.mem_cons_self) with e | hpb
          · exact e
          · rcases List.mem_cons.mp ((mem q).mpr List.mem_cons_self) with e | hqa
            · exact e.symm
            · have := Std.TransCmp.lt_trans (hp q hqa) (hq p hpb)
              exact absurd this (by simp [Std.ReflCmp.compare_self])
        subst pq
        congr 1
        refine ih has bs hbs fun e => ⟨fun he => ?_, fun he => ?_⟩
        · rcases List.mem_cons.mp ((mem e).mp (List.mem_cons_of_mem _ he)) with e' | hb'
          · subst e'
            have := hp e he
            exact absurd this (by simp [Std.ReflCmp.compare_self])
          · exact hb'
        · rcases List.mem_cons.mp ((mem e).mpr (List.mem_cons_of_mem _ he)) with e' | ha'
          · subst e'
            have := hq e he
            exact absurd this (by simp [Std.ReflCmp.compare_self])
          · exact ha'
  subst eq
  rfl

end Table
end FieldReplica
