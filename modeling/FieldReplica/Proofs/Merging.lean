import FieldReplica.Proofs.Objects

/-!
# Change sets and the objects of rows

A change set that can be read does the same to every row: it sets the columns that it names and leaves the
others. To put the new values into the object of a row and to read that object as a row comes to the same.
-/
namespace FieldReplica

namespace Row

variable {R : Type} [Row R] {r r' : R}

private theorem exists_sets_assign (h : (schema : Schema R).Separate) {name : String} {v : Json}
    (ha : assign name v r = .ok r') :
    ∃ f, (schema : Schema R).Sets [name] f ∧ ∀ x : R, assign name v x = .ok (f x) := by
  cases hc : (column? name : Option (Column R)) with
  | none =>
    refine ⟨id,Schema.sets_id ?_,fun x => by simp only [assign,hc,id]⟩
    intro c hmem hn
    exact Schema.column?_eq_none hc c hmem (List.mem_singleton.mp hn)
  | some c =>
    obtain ⟨hmem,rfl⟩ := column?_mem hc
    simp only [assign,hc] at ha
    cases hf : c.read.ofJson v with
    | error e => rw [hf] at ha; cases ha
    | ok f =>
      refine ⟨f,h.sets_read hmem hf,?_⟩
      intro x
      simp only [assign,hc,hf]
      rfl

/-- A change set that can be read does the same to every row. -/
theorem exists_sets_assignAll (h : (schema : Schema R).Separate) {l : List (String × Json)}
    (ha : assignAll l r = .ok r') :
    ∃ f, (schema : Schema R).Sets (l.map (·.1)) f ∧ ∀ x : R, assignAll l x = .ok (f x) := by
  induction l generalizing r with
  | nil => exact ⟨id,Schema.sets_id (fun _ _ => List.not_mem_nil),fun _ => rfl⟩
  | cons e l ih =>
    obtain ⟨name,v⟩ := e
    rw [assignAll] at ha
    cases hr : assign name v r with
    | error e => rw [hr] at ha; cases ha
    | ok t =>
      rw [hr] at ha
      obtain ⟨f,hf,hfx⟩ := exists_sets_assign h hr
      obtain ⟨g,hg,hgx⟩ := ih ha
      refine ⟨g ∘ f,hf.comp hg,?_⟩
      intro x
      rw [assignAll,hfx]
      exact hgx (f x)

/-! ### Reading the row's object with the new values in it -/

/-- The object of a row with the new values put in. -/
def merged (r : R) (changes : ChangeSet) : Json :=
  .object ((schema : Schema R).columns.map fun c => (c.name,(changes.find? c.name).getD (c.write r)))

/-- The value that a change set gives a column can be read, and is shown afterwards. -/
theorem write_assignAll_of_mem (h : (schema : Schema R).Separate) {l : List (String × Json)}
    (hl : (l.map (·.1)).Nodup) (ha : assignAll l r = .ok r') {c : Column R}
    (hc : c ∈ (schema : Schema R).columns) {v : Json} (hv : (c.name,v) ∈ l) :
    ∃ f, c.read.ofJson v = .ok f ∧ ∀ x, c.write (f x) = c.write r' := by
  induction l generalizing r with
  | nil => cases hv
  | cons e l ih =>
    obtain ⟨name,w⟩ := e
    obtain ⟨hname,hl⟩ := List.nodup_cons.mp hl
    rw [assignAll] at ha
    cases hr : assign name w r with
    | error e => rw [hr] at ha; cases ha
    | ok t =>
      rw [hr] at ha
      rcases List.mem_cons.mp hv with he | hv
      · obtain ⟨rfl,rfl⟩ := Prod.mk.inj he
        simp only [assign,column?,h.column?_of_mem hc] at hr
        cases hf : c.read.ofJson v with
        | error e => rw [hf] at hr; cases hr
        | ok f =>
          rw [hf] at hr
          obtain rfl : f r = t := Except.ok.inj hr
          obtain ⟨g,hg,hgx⟩ := exists_sets_assignAll h ha
          have hr' : g (f r) = r' := Except.ok.inj ((hgx (f r)).symm.trans ha)
          refine ⟨f,rfl,fun x => ?_⟩
          rw [← hr',hg.others c hc hname]
          exact h.own c hc _ _ f hf x r
      · exact ih hl ha hv

private theorem read_merged (h : (schema : Schema R).Separate) {changes : ChangeSet}
    (ha : assignAll changes.entries r = .ok r') {c : Column R} (hc : c ∈ (schema : Schema R).columns) :
    ∃ f, c.read.ofJson ((changes.find? c.name).getD (c.write r)) = .ok f ∧
      ∀ x, c.write (f x) = c.write r' := by
  cases hv : changes.find? c.name with
  | some v =>
    have hnodup : (changes.entries.map (·.1)).Nodup := changes.nodup_keys
    exact write_assignAll_of_mem h hnodup ha hc (Table.mem_entries.mpr hv)
  | none =>
    obtain ⟨f,hf,hfr⟩ := h.again c hc .value r trivial
    obtain ⟨g,hg,hgx⟩ := exists_sets_assignAll h ha
    have hunnamed : c.name ∉ changes.entries.map (·.1) := by
      intro hmem
      have hsome := Table.mem_keys.mp hmem
      rw [hv] at hsome
      cases hsome
    have hr' : g r = r' := Except.ok.inj ((hgx r).symm.trans ha)
    refine ⟨f,hf,fun x => ?_⟩
    rw [← hr',hg.others c hc hunnamed,h.own c hc _ _ f hf x r,hfr]

theorem exists_assignAll {l : List (String × Json)}
    (h : ∀ e ∈ l, ∀ c : Column R, column? e.1 = some c → ∃ f, c.read.ofJson e.2 = .ok f) (r : R) :
    ∃ r', assignAll l r = .ok r' := by
  induction l generalizing r with
  | nil => exact ⟨r,rfl⟩
  | cons e l ih =>
    obtain ⟨name,v⟩ := e
    have hl := fun e he => h e (List.mem_cons_of_mem _ he)
    have hassign : ∃ t, assign name v r = .ok t := by
      rw [assign]
      cases hc : (column? name : Option (Column R)) with
      | none => exact ⟨r,rfl⟩
      | some c =>
        obtain ⟨f,hf⟩ := h (name,v) List.mem_cons_self c hc
        dsimp only at hf ⊢
        rw [hf]
        exact ⟨f r,rfl⟩
    obtain ⟨t,ht⟩ := hassign
    rw [assignAll,ht]
    exact ih hl t

/-- To change the columns one by one is to put the new values into the row's object and to read it. -/
theorem decode_merged_iff (h : (schema : Schema R).Separate) {changes : ChangeSet} :
    Decoder.ofJson decode (merged r changes) = .ok r' ↔ assignAll changes.entries r = .ok r' := by
  have hforward : ∀ t, assignAll changes.entries r = .ok t →
      Decoder.ofJson decode (merged r changes) = .ok t := fun t ht =>
    (Schema.decode_columns_iff h trivial).mpr fun c hc => read_merged h ht hc
  refine ⟨fun hdecode => ?_,hforward r'⟩
  have hall : ∀ e ∈ changes.entries, ∀ c : Column R, column? e.1 = some c →
      ∃ f, c.read.ofJson e.2 = .ok f := by
    intro e he c hc
    obtain ⟨hmem,hn⟩ := column?_mem hc
    obtain ⟨f,hf,_⟩ := (Schema.decode_columns_iff h trivial).mp hdecode c hmem
    rw [hn,Table.mem_entries.mp he] at hf
    exact ⟨f,hf⟩
  obtain ⟨t,ht⟩ := exists_assignAll hall r
  rw [hforward t ht] at hdecode
  rw [ht,hdecode]

end Row

end FieldReplica
