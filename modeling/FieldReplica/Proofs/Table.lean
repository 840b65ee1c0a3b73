import FieldReplica.Table
import Mathlib.Data.List.Nodup

/-!
# Look-ups in tables

What is found under a key after each way of making a table, with keys that are compared by equality.
-/
namespace FieldReplica

section
variable {κ γ : Type} [DecidableEq κ]

/-- The value that a list of assignments gives a key last, and `v` if it gives none. -/
def lastUnder (k : κ) (l : List (κ × γ)) (v : γ) : γ :=
  l.foldl (fun v e => if e.1 = k then e.2 else v) v

@[simp] theorem lastUnder_nil (k : κ) (v : γ) : lastUnder k [] v = v := rfl

theorem lastUnder_cons (k : κ) (e : κ × γ) (l : List (κ × γ)) (v : γ) :
    lastUnder k (e::l) v = lastUnder k l (if e.1 = k then e.2 else v) := rfl

theorem lastUnder_cases (k : κ) (l : List (κ × γ)) (v : γ) :
    (lastUnder k l v = v ∧ ∀ e ∈ l, e.1 ≠ k) ∨ ∃ e ∈ l, e.1 = k ∧ lastUnder k l v = e.2 := by
  induction l generalizing v with
  | nil => exact .inl ⟨rfl,by simp⟩
  | cons e l ih =>
    rw [lastUnder_cons]
    rcases ih (if e.1 = k then e.2 else v) with ⟨hv,hl⟩ | ⟨e',he,hk,hv⟩
    · by_cases hk : e.1 = k
      · exact .inr ⟨e,List.mem_cons_self,hk,by rw [hv,if_pos hk]⟩
      · refine .inl ⟨by rw [hv,if_neg hk],fun e' he => ?_⟩
        rcases List.mem_cons.mp he with rfl | he
        · exact hk
        · exact hl e' he
    · exact .inr ⟨e',List.mem_cons_of_mem _ he,hk,hv⟩

theorem lastUnder_of_ne {k : κ} {l : List (κ × γ)} {v : γ} (h : ∀ e ∈ l, e.1 ≠ k) :
    lastUnder k l v = v := by
  rcases lastUnder_cases k l v with ⟨hv,_⟩ | ⟨e,he,hk,_⟩
  · exact hv
  · exact absurd hk (h e he)

/-- If all that is given to a key is `w`, then `w` is what it has. -/
theorem lastUnder_eq {k : κ} {l : List (κ × γ)} {v w : γ} (h : ∀ e ∈ l, e.1 = k → e.2 = w)
    (hv : v = w ∨ ∃ e ∈ l, e.1 = k) : lastUnder k l v = w := by
  rcases lastUnder_cases k l v with ⟨hl,hn⟩ | ⟨e,he,hk,hl⟩
  · rcases hv with rfl | ⟨e,he,hk⟩
    · exact hl
    · exact absurd hk (hn e he)
  · rw [hl]
    exact h e he hk

/-- If a list gives a key something, then what the key had before does not matter. -/
theorem lastUnder_of_mem {k : κ} {l : List (κ × γ)} (h : ∃ e ∈ l, e.1 = k)
    (v w : γ) : lastUnder k l v = lastUnder k l w := by
  induction l generalizing v w with
  | nil =>
    obtain ⟨e,he,_⟩ := h
    cases he
  | cons e l ih =>
    rw [lastUnder_cons,lastUnder_cons]
    by_cases hk : e.1 = k
    · rw [if_pos hk,if_pos hk]
    · obtain ⟨e',he,hk'⟩ := h
      rcases List.mem_cons.mp he with rfl | he
      · exact absurd hk' hk
      · exact ih ⟨e',he,hk'⟩ _ _

theorem lastUnder_append (k : κ) (l m : List (κ × γ)) (v : γ) :
    lastUnder k (l ++ m) v = lastUnder k m (lastUnder k l v) := List.foldl_append

/-- What a list gives a key stays when it is given once more. -/
theorem lastUnder_again (k : κ) (l : List (κ × γ)) (v : γ) :
    lastUnder k l (lastUnder k l v) = lastUnder k l v := by
  rcases lastUnder_cases k l v with ⟨hv,_⟩ | ⟨e,he,hk,_⟩
  · rw [hv,hv]
  · exact lastUnder_of_mem ⟨e,he,hk⟩ _ _

theorem lastUnder_filter {k : κ} {l : List (κ × γ)} {p : κ × γ → Bool} (h : ∀ e ∈ l, e.1 = k → p e)
    (v : γ) : lastUnder k (l.filter p) v = lastUnder k l v := by
  induction l generalizing v with
  | nil => rfl
  | cons e l ih =>
    have hl : ∀ e ∈ l, e.1 = k → p e := fun e he => h e (List.mem_cons_of_mem _ he)
    by_cases hp : p e = true
    · rw [List.filter_cons_of_pos hp,lastUnder_cons,lastUnder_cons,ih hl]
    · have hk : e.1 ≠ k := fun hk => hp (h e List.mem_cons_self hk)
      rw [List.filter_cons_of_neg hp,lastUnder_cons,if_neg hk,ih hl]

end

namespace Table

variable {κ α β : Type} [Ord κ]

theorem contains_eq (t : Table κ α) (k : κ) : t.contains k = (t.find? k).isSome := rfl

variable [Std.TransOrd κ] [Std.LawfulEqOrd κ]

theorem mem_entries {t : Table κ α} {k : κ} {v : α} : (k,v) ∈ t.entries ↔ t.find? k = some v :=
  mem_entries_iff t k v

theorem find?_insert_of [DecidableEq κ] (t : Table κ α) (k k' : κ) (v : α) :
    (t.insert k v).find? k' = if k' = k then some v else t.find? k' := by
  rw [find?_insert]
  simp only [Std.LawfulEqOrd.compare_eq_iff_eq]

theorem find?_erase_of [DecidableEq κ] (t : Table κ α) (k k' : κ) :
    (t.erase k).find? k' = if k' = k then none else t.find? k' := by
  rw [find?_erase]
  simp only [Std.LawfulEqOrd.compare_eq_iff_eq]

@[simp] theorem find?_insert_self (t : Table κ α) (k : κ) (v : α) : (t.insert k v).find? k = some v := by
  rw [find?_insert,if_pos Std.ReflCmp.compare_self]

@[simp] theorem find?_erase_self (t : Table κ α) (k : κ) : (t.erase k).find? k = none := by
  rw [find?_erase,if_pos Std.ReflCmp.compare_self]

theorem find?_insert_ne (t : Table κ α) {k k' : κ} (v : α) (h : k' ≠ k) :
    (t.insert k v).find? k' = t.find? k' := by
  rw [find?_insert,if_neg (fun e => h (Std.LawfulEqOrd.eq_of_compare e))]

theorem find?_erase_ne (t : Table κ α) {k k' : κ} (h : k' ≠ k) : (t.erase k).find? k' = t.find? k' := by
  rw [find?_erase,if_neg (fun e => h (Std.LawfulEqOrd.eq_of_compare e))]

theorem find?_filter (t : Table κ α) (p : κ → α → Bool) (k : κ) :
    (t.filter p).find? k = (t.find? k).filter (p k) := by
  apply Option.ext
  intro v
  rw [← mem_entries,Option.filter_eq_some_iff,← mem_entries]
  simp only [filter,List.mem_filter]

theorem find?_map (t : Table κ α) (f : κ → α → β) (k : κ) :
    (t.map f).find? k = (t.find? k).map (f k) := by
  apply Option.ext
  intro v
  rw [← mem_entries,Option.map_eq_some_iff]
  simp only [map,List.mem_map,Prod.mk.injEq]
  constructor
  · rintro ⟨⟨k',a⟩,ha,rfl,rfl⟩
    exact ⟨a,mem_entries.mp ha,rfl⟩
  · rintro ⟨a,ha,rfl⟩
    exact ⟨(k,a),mem_entries.mpr ha,rfl,rfl⟩

theorem map_insert (t : Table κ α) (f : α → β) (k : κ) (v : α) :
    (t.insert k v).map (fun _ v => f v) = (t.map fun _ v => f v).insert k (f v) := by
  apply ext_find?
  intro k'
  rw [find?_map,find?_insert,find?_insert,find?_map]
  split <;> rfl

theorem map_erase (t : Table κ α) (f : α → β) (k : κ) :
    (t.erase k).map (fun _ v => f v) = (t.map fun _ v => f v).erase k := by
  apply ext_find?
  intro k'
  rw [find?_map,find?_erase,find?_erase,find?_map]
  split <;> rfl

theorem contains_map (t : Table κ α) (f : α → β) (k : κ) :
    (t.map fun _ v => f v).contains k = t.contains k := by
  rw [contains_eq,contains_eq,find?_map,Option.isSome_map]

theorem mem_keys {t : Table κ α} {k : κ} : k ∈ t.keys ↔ (t.find? k).isSome := by
  simp only [keys,List.mem_map,Option.isSome_iff_exists]
  constructor
  · rintro ⟨⟨k',v⟩,hv,rfl⟩
    exact ⟨v,mem_entries.mp hv⟩
  · rintro ⟨v,hv⟩
    exact ⟨(k,v),mem_entries.mpr hv,rfl⟩

private theorem find?_foldl_insert [DecidableEq κ] (l : List (κ × α)) (t : Table κ α) (k : κ) :
    (l.foldl (fun t e => t.insert e.1 e.2) t).find? k =
      lastUnder k (l.map fun e => (e.1,some e.2)) (t.find? k) := by
  induction l generalizing t with
  | nil => rfl
  | cons e l ih =>
    simp only [List.foldl_cons,List.map_cons,lastUnder_cons]
    rw [ih,find?_insert_of]
    simp only [eq_comm]

theorem find?_ofList [DecidableEq κ] (l : List (κ × α)) (k : κ) :
    (ofList l).find? k = lastUnder k (l.map fun e => (e.1,some e.2)) none := by
  rw [ofList,find?_foldl_insert,find?_empty]

/-- A table is made again by its own entries. -/
theorem ofList_entries [DecidableEq κ] (t : Table κ α) : ofList t.entries = t := by
  apply ext_find?
  intro k
  rw [find?_ofList]
  apply lastUnder_eq
  · intro e he hk
    obtain ⟨⟨k',v⟩,hv,rfl⟩ := List.mem_map.mp he
    obtain rfl : k' = k := hk
    exact (mem_entries.mp hv).symm
  · cases h : t.find? k with
    | none => exact .inl rfl
    | some v => exact .inr ⟨(k,some v),List.mem_map.mpr ⟨(k,v),mem_entries.mpr h,rfl⟩,rfl⟩

omit [Std.TransOrd κ] in
theorem nodup_keys (t : Table κ α) : t.keys.Nodup := by
  refine List.pairwise_map.mpr (t.ascending.imp ?_)
  intro a b hlt hab
  rw [hab] at hlt
  exact absurd hlt (by simp [Std.ReflCmp.compare_self])

omit [Std.TransOrd κ] in
theorem nodup_entries (t : Table κ α) : t.entries.Nodup := List.Nodup.of_map _ t.nodup_keys

theorem perm_insert {t : Table κ α} {k : κ} (h : t.find? k = none) (v : α) :
    (t.insert k v).entries.Perm ((k,v)::t.entries) := by
  have hnew : (k,v) ∉ t.entries := by
    intro hm
    cases h.symm.trans (mem_entries.mp hm)
  rw [List.perm_ext_iff_of_nodup (nodup_entries _) (List.nodup_cons.mpr ⟨hnew,nodup_entries t⟩)]
  intro ⟨k',v'⟩
  rw [mem_entries,List.mem_cons,mem_entries,Prod.mk.injEq]
  by_cases hk : k' = k
  · subst hk
    rw [find?_insert_self,h]
    simp [eq_comm]
  · rw [find?_insert_ne t v hk]
    simp [hk]

theorem perm_erase {t : Table κ α} {k : κ} {v : α} (h : t.find? k = some v) :
    t.entries.Perm ((k,v)::(t.erase k).entries) := by
  have hgone : (k,v) ∉ (t.erase k).entries := by
    intro hm
    cases (find?_erase_self t k).symm.trans (mem_entries.mp hm)
  rw [List.perm_ext_iff_of_nodup (nodup_entries t) (List.nodup_cons.mpr ⟨hgone,nodup_entries _⟩)]
  intro ⟨k',v'⟩
  rw [mem_entries,List.mem_cons,mem_entries,Prod.mk.injEq]
  by_cases hk : k' = k
  · subst hk
    rw [find?_erase_self,h]
    simp [eq_comm]
  · rw [find?_erase_ne t hk]
    simp [hk]

theorem erase_of_find?_none {t : Table κ α} {k : κ} (h : t.find? k = none) : t.erase k = t := by
  apply ext_find?
  intro k'
  by_cases hk : k' = k
  · subst hk
    rw [find?_erase_self,h]
  · exact find?_erase_ne t hk

end Table
end FieldReplica
