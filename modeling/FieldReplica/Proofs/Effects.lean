import FieldReplica.Proofs.Watching

/-!
# What batches of writes change

A write has an effect or it leaves the rows as they are. What a batch reports are its writes with an effect, one
change each, told as it is at that point of the batch; carried out once more on the old rows they give the new ones.
The version counts, so that rows which have changed never have a version of before.
-/
namespace FieldReplica

variable {R : Type} [Row R]

/-- A change may happen to some rows: what is added is not there, what is updated is there and is another row, and
what is removed is the row that is there. -/
def Change.Valid (rows : Table String R) (c : Change R) : Prop :=
  match c.kind with
  | .added => rows.find? c.key = none
  | .updated => ∃ previous, rows.find? c.key = some previous ∧ previous ≠ c.row
  | .removed => rows.find? c.key = some c.row

namespace Write

/-- A change is of the kind that a write makes. -/
def Makes : Write R → Change R → Prop
  | .upsert row, c => c.key = Row.key row ∧ c.row = row ∧ c.kind ≠ .removed
  | .delete key, c => c.key = key ∧ c.kind = .removed

/-- Some changes are the writes with an effect, in order, each valid where it stands. -/
inductive Tells : Table String R → List (Write R) → List (Change R) → Prop where
  | nil (rows : Table String R) : Tells rows [] []
  | idle {rows : Table String R} {w : Write R} {ws : List (Write R)} {cs : List (Change R)}
      (same : w.apply rows = rows) (rest : Tells rows ws cs) : Tells rows (w::ws) cs
  | effective {rows : Table String R} {w : Write R} {ws : List (Write R)} {c : Change R} {cs : List (Change R)}
      (other : w.apply rows ≠ rows) (made : w.Makes c) (valid : c.Valid rows)
      (rest : Tells (w.apply rows) ws cs) : Tells rows (w::ws) (c::cs)

variable {rows : Table String R} {w : Write R} {ws : List (Write R)} {c : Change R} {cs : List (Change R)}

private theorem apply_eq_self_iff : w.apply rows = rows ↔ rows.find? w.entry.1 = w.entry.2 := by
  constructor
  · intro h
    have hfind := find?_apply rows w w.entry.1
    rw [h,if_pos rfl] at hfind
    exact hfind
  · exact fun h => (apply_of_shown h).1

private theorem change?_eq_some_iff : w.change? rows = some c ↔ w.Makes c ∧ c.Valid rows := by
  obtain ⟨key,kind,row⟩ := c
  cases w with
  | upsert row' =>
    rw [change?]
    constructor
    · intro h
      split at h
      · next hnone =>
        obtain ⟨rfl,rfl,rfl⟩ := Change.mk.inj (Option.some.inj h)
        exact ⟨⟨rfl,rfl,by simp⟩,hnone⟩
      · next previous hsome =>
        split at h
        · cases h
        · next hne =>
          obtain ⟨rfl,rfl,rfl⟩ := Change.mk.inj (Option.some.inj h)
          exact ⟨⟨rfl,rfl,by simp⟩,previous,hsome,hne⟩
    · rintro ⟨⟨rfl,hrow,hkind⟩,hvalid⟩
      obtain rfl : row = row' := hrow
      cases kind with
      | added =>
        have hnone : rows.find? (Row.key row) = none := hvalid
        rw [hnone]
      | updated =>
        obtain ⟨previous,hsome,hne⟩ := hvalid
        have hsome : rows.find? (Row.key row) = some previous := hsome
        rw [hsome]
        exact if_neg hne
      | removed => exact absurd rfl hkind
  | delete key' =>
    rw [change?]
    constructor
    · intro h
      obtain ⟨previous,hsome,hc⟩ := Option.map_eq_some_iff.mp h
      obtain ⟨rfl,rfl,rfl⟩ := Change.mk.inj hc
      exact ⟨⟨rfl,rfl⟩,hsome⟩
    · rintro ⟨⟨rfl,hkind⟩,hvalid⟩
      obtain rfl : kind = .removed := hkind
      have hsome : rows.find? key = some row := hvalid
      rw [hsome]
      rfl

private theorem change?_eq_none_iff : w.change? rows = none ↔ w.apply rows = rows := by
  rw [apply_eq_self_iff]
  refine ⟨fun h => ?_,fun h => (apply_of_shown h).2⟩
  cases w with
  | upsert row =>
    rw [change?] at h
    split at h
    · cases h
    · next previous hsome =>
      split at h
      · next hsame => exact hsame ▸ hsome
      · cases h
  | delete key => exact Option.map_eq_none_iff.mp h

/-- The changes of a batch are exactly its writes with an effect. -/
theorem tells_iff : Tells rows ws cs ↔ changes rows ws = cs := by
  -- The first write makes a change exactly if it has an effect, and then the change is the only one it can make.
  induction ws generalizing rows cs with
  | nil =>
    constructor
    · rintro ⟨⟩
      rfl
    · rintro rfl
      exact .nil rows
  | cons w ws ih =>
    rw [changes]
    cases hw : w.change? rows with
    | none =>
      have hsame := change?_eq_none_iff.mp hw
      rw [hsame,Option.toList_none,List.nil_append,← ih]
      constructor
      · rintro (_ | ⟨_,hrest⟩ | ⟨hother,_,_,_⟩)
        · exact hrest
        · exact absurd hsame hother
      · exact .idle hsame
    | some c =>
      obtain ⟨hmade,hvalid⟩ := change?_eq_some_iff.mp hw
      have hother : w.apply rows ≠ rows := fun hsame => by
        cases hw.symm.trans (change?_eq_none_iff.mpr hsame)
      rw [Option.toList_some,List.singleton_append]
      constructor
      · intro h
        cases h with
        | idle hsame _ => exact absurd hsame hother
        | effective _ hmade' hvalid' hrest =>
          rw [ih.mp hrest,Option.some.inj (hw.symm.trans (change?_eq_some_iff.mpr ⟨hmade',hvalid'⟩))]
      · rintro rfl
        exact .effective hother hmade hvalid (ih.mpr rfl)

/-- The changes of a batch, carried out on the old rows, give the new ones. -/
theorem foldl_changes (rows : Table String R) (ws : List (Write R)) :
    ((changes rows ws).map .changed).foldl Event.apply rows = applyAll rows ws := by
  apply Table.ext_find?
  intro key
  rw [find?_events,Store.find?_changes]

private theorem applyAll_of_changes_nil (h : changes rows ws = []) : applyAll rows ws = rows := by
  rw [← foldl_changes,h]
  rfl

end Write

namespace Store

/-- What may be asked of a store. -/
inductive Call (R : Type) where
  | upsert (row : R)
  | delete (key : String)
  | batch (ws : List (Write R))
  | clear
  /-- To report something else. -/
  | notify (e : Event R)

def call (s : Store R) : Call R → Store R
  | .upsert row => s.upsert row
  | .delete key => s.delete key
  | .batch ws => s.write ws
  | .clear => s.clear
  | .notify e => s.notify e

def run (s : Store R) (calls : List (Call R)) : Store R := calls.foldl call s

/-- A store comes after another: it has the same rows and the same version, or a greater version. -/
def Follows (t s : Store R) : Prop := (t.rows = s.rows ∧ t.version = s.version) ∨ s.version < t.version

variable {s t u : Store R}

omit [Row R] in
theorem Follows.trans (h' : u.Follows t) (h : t.Follows s) : u.Follows s := by
  rcases h with ⟨hrows,hversion⟩ | hlt
  · rw [Follows,← hrows,← hversion]
    exact h'
  · rcases h' with ⟨_,hversion⟩ | hlt'
    · exact .inr (hversion ▸ hlt)
    · exact .inr (Nat.lt_trans hlt hlt')

omit [Row R] in
theorem Follows.rows_eq (h : t.Follows s) (hversion : t.version = s.version) : t.rows = s.rows := by
  rcases h with ⟨hrows,_⟩ | hlt
  · exact hrows
  · exact absurd hversion (Nat.ne_of_gt hlt)

private theorem follows_write (s : Store R) (ws : List (Write R)) : (s.write ws).Follows s := by
  simp only [Follows,write,applyBatch]
  cases h : Write.changes s.rows ws with
  | nil => exact .inl ⟨Write.applyAll_of_changes_nil h,rfl⟩
  | cons c cs => exact .inr (Nat.lt_succ_self s.version)

private theorem follows_call (s : Store R) (c : Call R) : (s.call c).Follows s := by
  cases c with
  | upsert row => exact follows_write s _
  | delete key => exact follows_write s _
  | batch ws => exact follows_write s ws
  | clear => exact .inr (Nat.lt_succ_self s.version)
  | notify e => exact .inl ⟨rfl,rfl⟩

private theorem follows_run (s : Store R) (calls : List (Call R)) : (s.run calls).Follows s := by
  induction calls generalizing s with
  | nil => exact .inl ⟨rfl,rfl⟩
  | cons c calls ih => exact (ih (s.call c)).trans (follows_call s c)

/-- Every row is filed under its own key. -/
def Filed (s : Store R) : Prop := ∀ key, FiledUnder key (s.rows.find? key)

theorem filed_create (capacity : Nat) : (create capacity : Store R).Filed := filedUnder_none

private theorem filed_call (h : s.Filed) (c : Call R) : (s.call c).Filed := by
  cases c with
  | upsert row => exact filed_applyAll h _
  | delete key => exact filed_applyAll h _
  | batch ws => exact filed_applyAll h ws
  | clear => exact filedUnder_none
  | notify e => exact h

theorem filed_run (h : s.Filed) (calls : List (Call R)) : (s.run calls).Filed := by
  induction calls generalizing s with
  | nil => exact h
  | cons c calls ih => exact ih (filed_call h c)

/-- Rows that are filed under their own keys are listed in strictly ascending order of them. -/
theorem Filed.ascending (h : s.Filed) : s.list.Pairwise fun a b => Row.key a < Row.key b := by
  have hkey : ∀ e ∈ s.rows.entries, Row.key e.2 = e.1 := fun e he => h e.1 e.2 (Table.mem_entries.mp he)
  rw [list,Table.values,List.pairwise_map]
  refine s.rows.ascending.imp_of_mem fun ha hb hlt => ?_
  rw [hkey _ ha,hkey _ hb]
  exact compareOfLessAndEq_eq_lt.mp hlt

theorem Filed.mem_list (h : s.Filed) {row : R} :
    row ∈ s.list ↔ s.get? (Row.key row) = some row := by
  rw [list,Table.values,List.mem_map]
  constructor
  · rintro ⟨⟨key,_⟩,hmem,rfl⟩
    have hfind := Table.mem_entries.mp hmem
    rw [h key _ hfind]
    exact hfind
  · intro hget
    exact ⟨⟨Row.key row,row⟩,Table.mem_entries.mpr hget,rfl⟩

/-- Whatever was asked of a store, a batch writes its writes in order, so that a key has what the batch gives it
last. It reports and gives back exactly the writes with an effect, each as it stands at its point of the batch, from
which the new rows follow, and the version grows by one if there are any. At any time all rows are filed under their
own keys and listed in their order, and from then on the version never comes back for other rows. -/
theorem applyBatch_exact (capacity : Nat) (calls : List (Call R)) (ws : List (Write R)) {s t : Store R}
    {cs : List (Change R)} (hs : s = (create capacity).run calls) (ht : s.applyBatch ws = (t,cs)) :
    t.rows = ws.foldl Write.apply s.rows ∧
    (∀ key, t.get? key = lastUnder key (ws.map Write.entry) (s.get? key)) ∧
    (∀ cs', Write.Tells s.rows ws cs' ↔ cs' = cs) ∧
    (cs.map .changed).foldl Event.apply s.rows = t.rows ∧
    t.channel.log = s.channel.log ++ cs.map .changed ∧
    t.version = (if cs = [] then s.version else s.version + 1) ∧
    (∀ key row, s.get? key = some row → Row.key row = key) ∧
    s.list.Pairwise (fun a b => Row.key a < Row.key b) ∧
    ∀ later, (s.run later).version = s.version → (s.run later).rows = s.rows := by
  obtain ⟨rfl,rfl⟩ := Prod.mk.inj ht
  have hfiled : s.Filed := hs ▸ filed_run (filed_create capacity) calls
  refine ⟨rfl,Write.find?_applyAll ws s.rows,?_,Write.foldl_changes s.rows ws,rfl,?_,hfiled,hfiled.ascending,?_⟩
  · intro cs'
    rw [Write.tells_iff]
    exact eq_comm
  · simp only [List.isEmpty_iff]
  · exact fun later => (follows_run s later).rows_eq

/-- Writes to one key that have an effect, have none, and undo one another, among one to another key. -/
def repeatedly : List (Write Entity) := [.upsert (Entity.inState "E1" .ready),
  .upsert (Entity.inState "E1" .validated),.upsert (Entity.inState "E1" .validated),.delete "E1",
  .upsert (Entity.inState "E0" .ready),.delete "E1",.upsert (Entity.inState "E1" .markedBad)]

def repeatedlyTold : List (Change Entity) := [⟨"E1",.updated,Entity.inState "E1" .validated⟩,
  ⟨"E1",.removed,Entity.inState "E1" .validated⟩,⟨"E0",.added,Entity.inState "E0" .ready⟩,
  ⟨"E1",.added,Entity.inState "E1" .markedBad⟩]

/-- Of seven writes the four that have an effect are told, and the version grows by one. -/
theorem applyBatch_exact_repeatedly :
    ∃ s t : Store Entity, s = (create 4).run [.upsert (Entity.inState "E1" .ready)] ∧
      s.applyBatch repeatedly = (t,repeatedlyTold) ∧ t.version = s.version + 1 ∧
      t.get? "E1" = some (Entity.inState "E1" .markedBad) ∧ ¬Write.Tells s.rows repeatedly [] ∧
      (s.run [.batch repeatedly,.clear]).version ≠ s.version := by
  obtain ⟨s,hs⟩ : ∃ s : Store Entity, s = (create 4).run [.upsert (Entity.inState "E1" .ready)] := ⟨_,rfl⟩
  have hchanges : (s.applyBatch repeatedly).2 = repeatedlyTold := by
    rw [hs]
    decide +kernel
  obtain ⟨t,ht⟩ : ∃ t, s.applyBatch repeatedly = (t,repeatedlyTold) := ⟨_,Prod.ext rfl hchanges⟩
  obtain ⟨_,hget,htells,_,_,hversion,_,_,hlater⟩ := applyBatch_exact 4 _ repeatedly hs ht
  refine ⟨s,t,hs,ht,hversion,?_,?_,?_⟩
  · exact hget "E1"
  · rw [htells]
    exact nofun
  · intro hsame
    have hkeys := congrArg Table.keys (hlater _ hsame)
    revert hkeys
    rw [hs]
    decide +kernel

end Store
end FieldReplica
