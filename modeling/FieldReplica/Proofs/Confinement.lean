import FieldReplica.Proofs.Moves
import FieldReplica.Proofs.Overlay
import FieldReplica.Proofs.Watching

/-!
# What a read touches

A read that ends a record is to change the row of its own key and nothing else. The store files a row under
the key that the row itself has, so this depends on the row that the server sends: a read is confined to its
key exactly if the row is one of that key.
-/
namespace FieldReplica

variable {R : Type} [Row R]

/-- What the stream promises: a change brings a row of its own key. Nothing is asked of the rows that are read. -/
def Action.Streamed : Action R → Prop
  | .remote cs => ∀ c ∈ cs, FiledUnder c.key c.row
  | _ => True

namespace Ledger

/-- Every value that a rollback would put back is a row of its key. -/
def Based (l : Ledger R) : Prop := ∀ key p, l.pending.find? key = some p → FiledUnder key p.base

variable {l : Ledger R} {key : String} {p : Pending R}

private theorem based_remove (h : l.Based) (key : String) : (l.remove key).Based := by
  intro k q hq
  rw [remove,Table.find?_erase_of] at hq
  split at hq
  · cases hq
  · exact h k q hq

private theorem based_put (h : l.Based) (hp : FiledUnder key p.base) : (l.put key p).Based := by
  intro k q hq
  rw [put,Table.find?_insert_of] at hq
  split at hq
  · next hk =>
    rw [← Option.some.inj hq,hk]
    exact hp
  · exact h k q hq

private theorem based_receive (h : l.Based) {c : RemoteChange R} (hc : FiledUnder c.key c.row) :
    (l.receive c).ledger.Based := by
  intro k q hq
  obtain ⟨p,hp,⟨_,rfl⟩ | ⟨rfl,_,rfl⟩⟩ := find?_receive_eq_some.mp hq
  · exact h k q hp
  · exact hc

private theorem based_receiveAll (h : l.Based) {cs : List (RemoteChange R)}
    (hcs : ∀ c ∈ cs, FiledUnder c.key c.row) : (l.receiveAll cs).ledger.Based := by
  induction cs generalizing l with
  | nil => exact h
  | cons c cs ih =>
    have hc : (l.receive c).ledger.Based := based_receive h (hcs c List.mem_cons_self)
    exact ih hc fun c' hc' => hcs c' (List.mem_cons_of_mem _ hc')

private theorem based_rebase (l : Ledger R) (rows : List R) : (l.rebase (imageOf rows)).Based := by
  intro k q hq
  obtain ⟨p,_,_,rfl⟩ := find?_rebase_eq_some.mp hq
  exact filed_imageOf rows k

end Ledger

namespace Desk

variable {d : Desk R} {key : String} {id : Nat} {answer : Except AdapterError (Option R)}

/-! ### Rows and bases under their own keys -/

/-- Rows stand under their own keys, in the store and in the records. -/
structure Filed (d : Desk R) : Prop where
  rows : ∀ key, FiledUnder key (d.row? key)
  bases : d.reconciler.ledger.Based

theorem filed_create (capacity timeout : Nat) : (create capacity timeout : Desk R).Filed where
  rows key := filedUnder_none key
  bases _ _ h := by cases h

theorem filed_rows_step (h : ∀ key, FiledUnder key (d.row? key)) (a : Action R) (key : String) :
    FiledUnder key ((d.step a).row? key) := by
  obtain ⟨es,hes⟩ := d.reported_step a
  exact hes.filed h key

private theorem based_of_handled {r : Reconciler R} (h : d.reconciler.ledger.Based) (hr : d.Handled id r) :
    r.ledger.Based := by
  cases hr with
  | same => exact h
  | moved g hp hid =>
    have hbase := h _ _ hp
    exact Ledger.based_put h hbase
  | ruled v hp hid he => exact Ledger.based_remove h _

private theorem based_stage (h : d.Filed) (fresh : String) (m : Mutation R) :
    (d.step (.stage fresh m)).reconciler.ledger.Based := by
  rcases stage_cases d fresh m rfl with ⟨hs,_⟩ | ⟨p,_,_,_,_,hs⟩ | ⟨w,_,_,_,hs⟩
  · rw [hs]
    exact h.bases
  · rw [hs]
    exact Ledger.based_remove h.bases _
  · rw [hs]
    exact Ledger.based_put h.bases (h.rows _)

private theorem filed_step (h : d.Filed) {a : Action R} (ha : a.Streamed) : (d.step a).Filed := by
  have hsubject : ∀ i, a.subject? = some i → (d.step a).reconciler.ledger.Based :=
    fun i hi => based_of_handled h.bases (handled_step hi)
  refine ⟨filed_rows_step h.rows a,?_⟩
  cases a with
  | stage fresh m => exact based_stage h fresh m
  | discard i | submit i | abort i | reply i answer | expire i | read i answer => exact hsubject i rfl
  | advance ms | seed rows => exact h.bases
  | remote cs =>
    have hr : (d.step (.remote cs)).reconciler.ledger = (d.reconciler.ledger.receiveAll cs).ledger :=
      congrArg (·.ledger) (reconciler_remote d cs)
    rw [hr]
    exact Ledger.based_receiveAll h.bases ha
  | snapshot rows resync =>
    have hr : (d.step (.snapshot rows resync)).reconciler.ledger =
        d.reconciler.ledger.rebase (imageOf rows) := by
      rw [← Reconciler.ledger_applySnapshot]
      exact congrArg (·.ledger) (reconciler_snapshot d rows resync)
    rw [hr]
    exact Ledger.based_rebase _ rows
  | close => exact fun _ _ hp => by cases hp

private theorem filed_after (h : d.Filed) {as : List (Action R)} (has : d.Along (fun _ a => a.Streamed) as) :
    (d.after as).Filed := by
  induction as generalizing d with
  | nil => exact h
  | cons a as ih => exact ih (filed_step h has.1) has.2

/-! ### The read of one key -/

/-- The key shows a value, and no other row has changed. -/
structure Confined (d d' : Desk R) (key : String) (v : Option R) : Prop where
  shown : d'.row? key = v
  others : ∀ k, k ≠ key → d'.row? k = d.row? k

/-- A read that ends a record writes one value under one key. -/
theorem settled_of_retires {p : Pending R} (hp : d.reconciler.find? key id = some p)
    (hr : d.retires (.read id answer) key id) : ∃ e, (d.step (.read id answer)).reconciler =
      (d.reconciler.retire key (Reconciler.settledValue p answer)).notify e := by
  obtain ⟨_,_,_,_,_,_,he⟩ := flight_of_retires_read hr
  rw [Reconciler.settle_of_some hp] at he
  exact ⟨_,he⟩

private theorem row?_of_retires {p : Pending R} (hp : d.reconciler.find? key id = some p)
    (hr : d.retires (.read id answer) key id) (k : String) : (d.step (.read id answer)).row? k =
      (Write.applyAll d.reconciler.store.rows [.restore key (Reconciler.settledValue p answer)]).find? k := by
  obtain ⟨e,he⟩ := settled_of_retires hp hr
  exact congrArg (·.store.rows.find? k) he

private theorem confined_of_filed {p : Pending R} (hp : d.reconciler.find? key id = some p)
    (hr : d.retires (.read id answer) key id) (hv : FiledUnder key (Reconciler.settledValue p answer)) :
    d.Confined (d.step (.read id answer)) key (Reconciler.settledValue p answer) where
  shown := by rw [row?_of_retires hp hr,Write.find?_restore hv,if_pos rfl]
  others k hk := by
    rw [row?_of_retires hp hr,Write.find?_restore hv,if_neg hk]
    rfl

/-- A row of another key takes the place of that key's row, and the key that was read keeps what it had. -/
theorem rows_of_stray {p : Pending R} (hp : d.reconciler.find? key id = some p) {row : R}
    (hr : d.retires (.read id (.ok (some row))) key id) (hk : Row.key row ≠ key) :
    (d.step (.read id (.ok (some row)))).row? key = d.row? key ∧
      (d.step (.read id (.ok (some row)))).row? (Row.key row) = some row := by
  have hentry : (Write.restore key (some row)).entry = (Row.key row,some row) := rfl
  constructor
  · rw [row?_of_retires hp hr,Reconciler.settledValue,Write.find?_single hentry,if_neg hk.symm]
    rfl
  · rw [row?_of_retires hp hr,Reconciler.settledValue,Write.find?_single hentry,if_pos rfl]

private theorem filedUnder_settledValue {p : Pending R} (hb : FiledUnder key p.base) :
    FiledUnder key (Reconciler.settledValue p answer) ↔
      ∀ server, answer = .ok server → FiledUnder key server := by
  cases answer with
  | ok server =>
    constructor
    · rintro h _ ⟨⟩
      exact h
    · exact fun h => h server rfl
  | error e => exact ⟨fun _ => nofun,fun _ => hb⟩

/-- After any run, a read that ends a record leaves the returned value, or the recorded one if it failed,
under its key and every other row as it was, exactly if the row that it brings is one of the key. A row of
another key is put in the place of that key's row, and the abandoned or confirmed value stays. The records of
other keys stay in any case. -/
theorem confined_read_iff (capacity timeout : Nat) {as : List (Action R)}
    (has : (create capacity timeout : Desk R).Along (fun _ a => a.Streamed) as) {p : Pending R}
    (hp : ((create capacity timeout).after as).reconciler.find? key id = some p)
    (hr : ((create capacity timeout).after as).retires (.read id answer) key id) :
    let d := (create capacity timeout).after as
    let d' := d.step (.read id answer)
    (d.Confined d' key (Reconciler.settledValue p answer) ↔
      ∀ server, answer = .ok server → FiledUnder key server) ∧
    (∀ row, answer = .ok (some row) → Row.key row ≠ key →
      d'.row? key = d.row? key ∧ d'.row? (Row.key row) = some row) ∧
    ∀ k, k ≠ key → d'.record? k = d.record? k := by
  intro d d'
  have hfiled : d.Filed := filed_after (filed_create capacity timeout) has
  have hbase : FiledUnder key p.base := hfiled.bases key p (Reconciler.find?_eq_some.mp hp).1
  refine ⟨?_,?_,?_⟩
  · rw [← filedUnder_settledValue hbase]
    constructor
    · intro hc
      rw [← hc.shown]
      exact filed_rows_step hfiled.rows _ key
    · exact confined_of_filed hp hr
  · rintro row rfl hk
    exact rows_of_stray hp hr hk
  · intro k hk
    obtain ⟨e,he⟩ := settled_of_retires hp hr
    exact (congrArg (·.ledger.pending.find? k) he).trans (Table.find?_erase_ne _ hk)

/-- Two features are marked as validated. The second mutation is accepted and has to ask for its row, and the
first one is still under way. -/
def besideAnother : List (Action Entity) := [
  .remote [⟨"E1",some (.inState "E1" .ready),[⟨40⟩]⟩,⟨"E2",some (.inState "E2" .ready),[⟨41⟩]⟩],
  .stage "" (Entity.setStatus "E2" .validated),
  .submit 1,
  .stage "" (Entity.setStatus "E1" .validated),
  .submit 2,
  .reply 2 (.ok ⟨42⟩),
  .advance 30000,
  .expire 2]

private theorem along_besideAnother :
    (create 8 30000 : Desk Entity).Along (fun _ a => a.Streamed) besideAnother := by
  refine ⟨?_,trivial,trivial,trivial,trivial,trivial,trivial,trivial,trivial⟩
  intro c hc
  rcases List.mem_pair.mp hc with rfl | rfl
  · exact filedUnder_some rfl
  · exact filedUnder_some rfl

/-- What is pending on the second feature after that. -/
def awaitedE1 : Pending Entity :=
  ⟨2,Entity.setStatus "E1" .validated,.awaiting ⟨42⟩,some (.inState "E1" .ready)⟩

/-- The server's row of the feature is put back, and the other feature shows what it did. -/
theorem confined_read_iff_ownRow :
    let d := (create 8 30000).after besideAnother
    let answer : Except AdapterError (Option Entity) := .ok (some (.inState "E1" .markedBad))
    d.Confined (d.step (.read 2 answer)) "E1" (Reconciler.settledValue awaitedE1 answer) := by
  intro d answer
  have hp : d.reconciler.find? "E1" 2 = some awaitedE1 := by decide +kernel
  have hr : d.retires (.read 2 answer) "E1" 2 := by decide +kernel
  have hiff := (confined_read_iff 8 30000 along_besideAnother hp hr).1
  refine hiff.mpr ?_
  intro server hserver
  rw [← Except.ok.inj hserver]
  exact filedUnder_some rfl

/-- A row of the other feature takes the place of that one's pending value, and the value of the mutation that
is given up stays: it is neither the row that came nor the one that was recorded. -/
theorem strayRow_unconfined :
    (create 8 30000 : Desk Entity).Along (fun _ a => a.Streamed) besideAnother ∧
    let d := (create 8 30000).after besideAnother
    let a : Action Entity := .read 2 (.ok (some (.inState "E2" .markedBad)))
    d.reconciler.find? "E1" 2 = some awaitedE1 ∧ d.retires a "E1" 2 ∧
      ((d.step a).record? "E2").isSome ∧ d.row? "E2" = some (.inState "E2" .validated) ∧
      (d.step a).row? "E2" = some (.inState "E2" .markedBad) ∧
      (d.step a).row? "E1" = some (.inState "E1" .validated) ∧
      ¬ d.Confined (d.step a) "E1" (Reconciler.settledValue awaitedE1 (.ok (some (.inState "E2" .markedBad)))) := by
  refine ⟨along_besideAnother,by decide +kernel,by decide +kernel,by decide +kernel,by decide +kernel,
    by decide +kernel,by decide +kernel,?_⟩
  intro hc
  exact absurd (hc.others "E2" (by decide)) (by decide +kernel)

end Desk
end FieldReplica
