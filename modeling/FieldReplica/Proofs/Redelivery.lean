import FieldReplica.Proofs.Batches
import FieldReplica.Proofs.Tracking

/-!
# A batch that comes again

After a connection is lost the stream may repeat a batch. The first delivery has confirmed what the batch can
confirm, so the second one finds no mutation that waits for a transaction of it, and gives every key the value
that the first one has left there or below.
-/
namespace FieldReplica

variable {R : Type} [Row R]

/-- The key of a remote change with the value that it gives it. -/
def RemoteChange.entry (c : RemoteChange R) : String × Option R := (c.key,c.row)

namespace Ledger

variable {l : Ledger R} {key : String} {p : Pending R} {cs : List (RemoteChange R)}

omit [Row R] in
/-- A mutation that a batch does not confirm stays, over the value that the batch gives its key last. -/
theorem find?_receiveAll_of_unmatched (hp : l.pending.find? key = some p)
    (hn : ∀ c ∈ cs, c.key = key → p.matched? c.txids = none) :
    (l.receiveAll cs).ledger.pending.find? key =
      some { p with base := lastUnder key (cs.map RemoteChange.entry) p.base } := by
  induction cs generalizing l p with
  | nil => exact hp
  | cons c cs ih =>
    have hrest : ∀ x ∈ cs, x.key = key → p.matched? x.txids = none :=
      fun x hx => hn x (List.mem_cons_of_mem _ hx)
    rw [receiveAll_cons,List.map_cons,lastUnder_cons]
    by_cases hk : c.key = key
    · have hfind : (l.receive c).ledger.pending.find? key = some { p with base := c.row } :=
        find?_receive_eq_some.mpr ⟨p,hp,.inr ⟨hk,hn c List.mem_cons_self hk,rfl⟩⟩
      rw [if_pos (show c.entry.1 = key from hk)]
      exact ih hfind hrest
    · have hfind : (l.receive c).ledger.pending.find? key = some p :=
        find?_receive_eq_some.mpr ⟨p,hp,.inl ⟨hk,rfl⟩⟩
      rw [if_neg (show c.entry.1 ≠ key from hk)]
      exact ih hfind hrest

omit [Row R] in
/-- A record that is there after a batch was there before, and no change of the batch confirms its mutation. -/
theorem unmatched_of_receiveAll {q : Pending R} (hq : (l.receiveAll cs).ledger.pending.find? key = some q) :
    ∃ p, l.pending.find? key = some p ∧ (∀ c ∈ cs, c.key = key → p.matched? c.txids = none) ∧
      q = { p with base := lastUnder key (cs.map RemoteChange.entry) p.base } := by
  cases hp : l.pending.find? key with
  | none => cases (receiveAll_of_absent hp cs).1.symm.trans hq
  | some p =>
    rcases receiveAll_of_present hp cs with ⟨_,_,_,hnone,_⟩ | ⟨hn,_,_⟩
    · cases hnone.symm.trans hq
    · exact ⟨p,rfl,hn,Option.some.inj (hq.symm.trans (find?_receiveAll_of_unmatched hp hn))⟩

/-- A ledger that a batch has nothing to confirm in. -/
def Past (l : Ledger R) (cs : List (RemoteChange R)) : Prop :=
  ∀ key p, l.pending.find? key = some p → ∀ c ∈ cs, c.key = key → p.matched? c.txids = none

omit [Row R] in
private theorem past_receiveAll (l : Ledger R) (cs : List (RemoteChange R)) : (l.receiveAll cs).ledger.Past cs := by
  intro key q hq
  obtain ⟨p,_,hn,rfl⟩ := unmatched_of_receiveAll hq
  exact hn

omit [Row R] in
private theorem contains_receive_of_past {c : RemoteChange R} (h : l.Past (c::cs)) (key : String) :
    (l.receive c).ledger.pending.contains key = l.pending.contains key := by
  rw [Table.contains_eq,Table.contains_eq,find?_receive]
  split
  · next hk =>
    cases hp : l.pending.find? key with
    | none => rfl
    | some p => rw [Option.bind_some,Pending.afterChange,h key p hp c List.mem_cons_self hk.symm]; rfl
  · rfl

omit [Row R] in
private theorem past_receive {c : RemoteChange R} (h : l.Past (c::cs)) : (l.receive c).ledger.Past cs := by
  intro key q hq x hx hk
  have hlater : x ∈ c::cs := List.mem_cons_of_mem _ hx
  obtain ⟨p,hp,⟨_,rfl⟩ | ⟨_,_,rfl⟩⟩ := find?_receive_eq_some.mp hq
  · exact h key q hp x hlater hk
  · exact h key p hp x hlater hk

omit [Row R] in
private theorem receiveAll_of_past (h : l.Past cs) : (l.receiveAll cs).confirmed = [] ∧
    (l.receiveAll cs).writes =
      (cs.filter fun c => !l.pending.contains c.key).map fun c => .restore c.key c.row := by
  induction cs generalizing l with
  | nil => exact ⟨rfl,rfl⟩
  | cons c cs ih =>
    obtain ⟨hconfirmed,hwrites⟩ := ih (past_receive h)
    rw [receiveAll_cons]
    simp only [hconfirmed,hwrites,contains_receive_of_past h,List.filter_cons]
    cases hp : l.pending.find? c.key with
    | none =>
      rw [receive_of_none hp]
      simp [Table.contains_eq,hp]
    | some p =>
      rw [receive_of_unmatched hp (h c.key p hp c List.mem_cons_self rfl)]
      simp [Table.contains_eq,hp]

omit [Row R] in
private theorem pending_receiveAll_again (l : Ledger R) (cs : List (RemoteChange R)) :
    ((l.receiveAll cs).ledger.receiveAll cs).ledger.pending = (l.receiveAll cs).ledger.pending := by
  apply Table.ext_find?
  intro key
  cases hq : (l.receiveAll cs).ledger.pending.find? key with
  | none => exact (receiveAll_of_absent hq cs).1
  | some q =>
    obtain ⟨p,_,hn,rfl⟩ := unmatched_of_receiveAll hq
    rw [find?_receiveAll_of_unmatched hq hn]
    simp only [lastUnder_again]

omit [Row R] in
private theorem recordings_again {e : String × Txid} (h : e ∈ (l.receiveAll cs).ledger.recordings cs) :
    e ∈ l.recordings cs := by
  obtain ⟨hsome,c,hc,hk,ht⟩ := mem_of_recordings h
  obtain ⟨q,hq⟩ := Option.isSome_iff_exists.mp hsome
  obtain ⟨p,hp,hn,_⟩ := unmatched_of_receiveAll hq
  exact mem_recordings_of_unmatched hp hn hc hk ht

omit [Row R] in
private theorem observed_receiveAll_again (h : l.observed.Fits (l.recordings cs)) :
    ((l.receiveAll cs).ledger.receiveAll cs).ledger.observed = (l.receiveAll cs).ledger.observed := by
  rw [observed_receiveAll _ cs]
  apply ObservedTxids.note_of_mem
  intro e he
  rw [observed_receiveAll l cs]
  exact ObservedTxids.mem_note_of_fits h (recordings_again he)

/-! ### The rows -/

private theorem find?_writes_receive {c : RemoteChange R} (hc : FiledUnder c.key c.row) (rows : Table String R) :
    (Write.applyAll rows (l.receive c).writes).find? key =
      if c.key = key ∧ (l.receive c).ledger.pending.find? key = none then c.row else rows.find? key := by
  cases hp : l.pending.find? c.key with
  | none =>
    rw [receive_of_none hp,Write.find?_restore hc]
    by_cases hk : c.key = key
    · simp [← hk,hp]
    · simp [hk,Ne.symm hk]
  | some p =>
    cases ht : p.matched? c.txids with
    | some t =>
      rw [receive_of_matched hp ht,Write.find?_restore hc,remove]
      by_cases hk : c.key = key
      · simp [← hk]
      · simp [hk,Ne.symm hk]
    | none =>
      rw [receive_of_unmatched hp ht]
      by_cases hk : c.key = key
      · simp [← hk,Write.applyAll]
      · simp [hk,Write.applyAll]

private theorem find?_writes_of_absent (hfiled : ∀ c ∈ cs, FiledUnder c.key c.row)
    (h : l.pending.find? key = none) (rows : Table String R) :
    (Write.applyAll rows (l.receiveAll cs).writes).find? key =
      lastUnder key (cs.map RemoteChange.entry) (rows.find? key) := by
  induction cs generalizing l rows with
  | nil => rfl
  | cons c cs ih =>
    have hnone : (l.receive c).ledger.pending.find? key = none := by
      rw [find?_receive,h,Option.bind_none,ite_self]
    rw [receiveAll_cons,Write.applyAll_append,ih (fun x hx => hfiled x (List.mem_cons_of_mem _ hx)) hnone,
      find?_writes_receive (hfiled c List.mem_cons_self),List.map_cons,lastUnder_cons]
    simp only [hnone,and_true]
    rfl

/-- A key whose record ends in a batch shows what the batch gives it last, whatever was there before. -/
theorem find?_writes_of_retired (hfiled : ∀ c ∈ cs, FiledUnder c.key c.row)
    (hp : l.pending.find? key = some p) (h : (l.receiveAll cs).ledger.pending.find? key = none)
    (rows : Table String R) (v : Option R) :
    (Write.applyAll rows (l.receiveAll cs).writes).find? key =
      lastUnder key (cs.map RemoteChange.entry) v := by
  induction cs generalizing l p rows v with
  | nil => cases hp.symm.trans h
  | cons c cs ih =>
    have hrest : ∀ x ∈ cs, FiledUnder x.key x.row := fun x hx => hfiled x (List.mem_cons_of_mem _ hx)
    rw [receiveAll_cons] at h
    rw [receiveAll_cons,Write.applyAll_append,List.map_cons,lastUnder_cons]
    cases hq : (l.receive c).ledger.pending.find? key with
    | some q => exact ih hrest hq h _ _
    | none =>
      -- The change ends the record and writes its own value.
      have hk : c.key = key := by
        by_contra hk
        rw [find?_receive,if_neg (Ne.symm hk),hp] at hq
        cases hq
      rw [find?_writes_of_absent hrest hq,find?_writes_receive (hfiled c List.mem_cons_self),
        if_pos ⟨hk,hq⟩,if_pos (show c.entry.1 = key from hk)]
      rfl

private theorem find?_writes_of_gone (hfiled : ∀ c ∈ cs, FiledUnder c.key c.row)
    (h : (l.receiveAll cs).ledger.pending.find? key = none) (rows : Table String R) :
    ∃ v, (Write.applyAll rows (l.receiveAll cs).writes).find? key =
      lastUnder key (cs.map RemoteChange.entry) v := by
  cases hp : l.pending.find? key with
  | none => exact ⟨_,find?_writes_of_absent hfiled hp rows⟩
  | some p => exact ⟨none,find?_writes_of_retired hfiled hp h rows none⟩

private theorem rows_again (hfiled : ∀ c ∈ cs, FiledUnder c.key c.row) (l : Ledger R) (rows : Table String R) :
    let once := Write.applyAll rows (l.receiveAll cs).writes
    Write.applyAll once ((l.receiveAll cs).ledger.receiveAll cs).writes = once := by
  intro once
  apply Table.ext_find?
  intro key
  cases hp : (l.receiveAll cs).ledger.pending.find? key with
  | none =>
    obtain ⟨v,hv⟩ := find?_writes_of_gone hfiled hp rows
    rw [find?_writes_of_absent hfiled hp,hv,lastUnder_again]
  | some p =>
    rw [(receiveAll_of_past (past_receiveAll l cs)).2,Write.find?_applyAll,lastUnder_of_ne]
    rintro e he rfl
    obtain ⟨w,hw,rfl⟩ := List.mem_map.mp he
    obtain ⟨c,hc,rfl⟩ := List.mem_map.mp hw
    obtain ⟨hc,hfree⟩ := List.mem_filter.mp hc
    rw [Write.entry_restore (hfiled c hc)] at hp
    simp [Table.contains_eq,hp] at hfree

private theorem shown_again (hfiled : ∀ c ∈ cs, FiledUnder c.key c.row) (hone : (cs.map (·.key)).Nodup)
    (l : Ledger R) (rows : Table String R) :
    ∀ w ∈ ((l.receiveAll cs).ledger.receiveAll cs).writes,
      (Write.applyAll rows (l.receiveAll cs).writes).find? w.entry.1 = w.entry.2 := by
  intro w hw
  rw [(receiveAll_of_past (past_receiveAll l cs)).2] at hw
  obtain ⟨c,hc,rfl⟩ := List.mem_map.mp hw
  obtain ⟨hc,hfree⟩ := List.mem_filter.mp hc
  have hgone : (l.receiveAll cs).ledger.pending.find? c.key = none := by
    simpa [Table.contains_eq] using hfree
  obtain ⟨v,hv⟩ := find?_writes_of_gone hfiled hgone rows
  rw [Write.entry_restore (hfiled c hc),hv]
  refine lastUnder_eq ?_ (.inr ⟨c.entry,List.mem_map_of_mem hc,rfl⟩)
  intro e he hk
  obtain ⟨x,hx,rfl⟩ := List.mem_map.mp he
  exact congrArg RemoteChange.row (List.inj_on_of_nodup_map hone hx hc hk)

end Ledger

namespace Desk

private theorem remote_again (d : Desk R) (cs : List (RemoteChange R)) :
    let once := d.step (.remote cs)
    once.words (.remote cs) = [] ∧
      once.act (.remote cs) = ({ once with reconciler := (once.reconciler.applyRemote cs).1 },[]) := by
  intro once
  have hledger : once.reconciler.ledger = (d.reconciler.ledger.receiveAll cs).ledger :=
    congrArg (·.ledger) (reconciler_remote d cs)
  have hwords : (once.reconciler.applyRemote cs).2 = [] := by
    change (once.reconciler.ledger.receiveAll cs).confirmed = []
    rw [hledger]
    exact (Ledger.receiveAll_of_past (Ledger.past_receiveAll _ cs)).1
  refine ⟨hwords,?_⟩
  change once.remote cs = _
  rw [remote_eq,hwords]
  rfl

/-- What a batch that comes twice leaves behind, next to what it leaves when it comes once. -/
structure Redelivered (d : Desk R) (cs : List (RemoteChange R)) (once twice : Desk R) : Prop where
  records : twice.reconciler.ledger.pending = once.reconciler.ledger.pending
  confirmed : twice.reconciler.store.confirmed = once.reconciler.store.confirmed
  /-- Nobody is woken, and no submission ends. -/
  unheard : once.words (.remote cs) = [] ∧ (once.act (.remote cs)).2 = [] ∧ twice.flights = once.flights
  /-- The transactions that are remembered stay if those that the batch brings fit in. -/
  observed : d.reconciler.ledger.observed.Fits (d.reconciler.ledger.recordings cs) →
    twice.reconciler.ledger.observed = once.reconciler.ledger.observed
  /-- The rows stay if every change brings a row of its own key. -/
  rows : (∀ c ∈ cs, FiledUnder c.key c.row) →
    twice.reconciler.store.rows = once.reconciler.store.rows
  /-- With one change for a key nothing is reported, and the version stays. -/
  unreported : (∀ c ∈ cs, FiledUnder c.key c.row) → (cs.map (·.key)).Nodup →
    twice.reconciler.store = once.reconciler.store

private theorem redelivered_remote (d : Desk R) (cs : List (RemoteChange R)) :
    d.Redelivered cs (d.step (.remote cs)) ((d.step (.remote cs)).step (.remote cs)) := by
  obtain ⟨hwords,hact⟩ := remote_again d cs
  have honce : (d.step (.remote cs)).reconciler = (d.reconciler.applyRemote cs).1 := reconciler_remote d cs
  have hledger : (d.step (.remote cs)).reconciler.ledger = (d.reconciler.ledger.receiveAll cs).ledger :=
    congrArg (·.ledger) honce
  have hrows : (d.step (.remote cs)).reconciler.store.rows =
      Write.applyAll d.reconciler.store.rows (d.reconciler.ledger.receiveAll cs).writes :=
    congrArg (·.store.rows) honce
  have htwice : ((d.step (.remote cs)).step (.remote cs)).reconciler =
      ((d.step (.remote cs)).reconciler.applyRemote cs).1 := reconciler_remote _ cs
  have hconfirmed : ((d.step (.remote cs)).reconciler.ledger.receiveAll cs).confirmed = [] := hwords
  generalize d.step (.remote cs) = once at *
  refine ⟨?_,?_,⟨hwords,congrArg Prod.snd hact,congrArg (·.1.flights) hact⟩,?_,?_,?_⟩
  · rw [htwice]
    change (once.reconciler.ledger.receiveAll cs).ledger.pending = _
    rw [hledger]
    exact Ledger.pending_receiveAll_again _ cs
  · rw [htwice,Reconciler.confirmed_applyRemote,hconfirmed]
    exact List.append_nil _
  · intro hfits
    rw [htwice]
    change (once.reconciler.ledger.receiveAll cs).ledger.observed = _
    rw [hledger]
    exact Ledger.observed_receiveAll_again hfits
  · intro hfiled
    rw [htwice,Reconciler.rows_applyRemote,hledger,hrows]
    exact Ledger.rows_again hfiled _ _
  · intro hfiled hone
    have hshown := Ledger.shown_again hfiled hone d.reconciler.ledger d.reconciler.store.rows
    rw [← hledger,← hrows] at hshown
    rw [htwice]
    change (once.reconciler.store.write _).notifyAll _ = _
    rw [hconfirmed,Store.write_of_shown hshown]
    simp [Store.notifyAll,Channel.sendAll]

/-- A batch that comes again right after it came does nothing any more. What is asked of its rows holds of every
batch that is read from the messages of the stream. -/
theorem redelivery_harmless (d : Desk R) (cs : List (RemoteChange R)) :
    let once := d.step (.remote cs)
    let twice := once.step (.remote cs)
    d.Redelivered cs once twice ∧
      ∀ ms : List ChangeMessage, cs = ms.filterMap Subscription.decodeChange →
        twice.reconciler.store.rows = once.reconciler.store.rows ∧
          ((cs.map (·.key)).Nodup → twice.reconciler.store = once.reconciler.store) := by
  intro once twice
  have h := redelivered_remote d cs
  refine ⟨h,?_⟩
  intro ms hms
  have hfiled : ∀ c ∈ cs, FiledUnder c.key c.row := by
    intro c hc
    rw [hms] at hc
    obtain ⟨m,_,hm⟩ := List.mem_filterMap.mp hc
    exact Subscription.filed_decodeChange hm
  exact ⟨h.rows hfiled,h.unreported hfiled⟩

/-- One mutation waits for its transaction, and another one for the server's answer. -/
def twoUnderWay : List (Action Entity) := [
  .remote [⟨"E1",some (.inState "E1" .ready),[⟨40⟩]⟩,⟨"E2",some (.inState "E2" .ready),[⟨41⟩]⟩],
  .stage "" (Entity.setStatus "E1" .validated),
  .submit 1,
  .stage "" (Entity.setStatus "E2" .validated),
  .submit 2,
  .reply 1 (.ok ⟨42⟩)]

/-- A batch that confirms the first mutation and goes on to change its feature. -/
def repeatedBatch : List (RemoteChange Entity) := [
  ⟨"E1",some (.inState "E1" .openedInOdk),[⟨43⟩]⟩,
  ⟨"E1",some (.inState "E1" .validated),[⟨42⟩,⟨44⟩]⟩,
  ⟨"E2",some (.inState "E2" .openedInOdk),[⟨44⟩,⟨45⟩]⟩,
  ⟨"E3",some (.inState "E3" .ready),[]⟩,
  ⟨"E1",some (.inState "E1" .markedBad),[⟨45⟩]⟩,
  ⟨"E3",none,[⟨46⟩]⟩]

/-- A batch with one change for a feature, which confirms the first mutation. -/
def changeForEach : List (RemoteChange Entity) := [
  ⟨"E1",some (.inState "E1" .validated),[⟨42⟩,⟨44⟩]⟩,
  ⟨"E2",some (.inState "E2" .openedInOdk),[⟨44⟩,⟨45⟩]⟩,
  ⟨"E3",some (.inState "E3" .ready),[]⟩]

theorem redelivery_harmless_confirmedHalfway :
    let d : Desk Entity := (create 8 30000).after twoUnderWay
    (d.step (.remote repeatedBatch)).reconciler.store.confirmed = [("E1",⟨42⟩)] ∧
      ((d.step (.remote repeatedBatch)).record? "E2").isSome ∧
      ((d.step (.remote repeatedBatch)).step (.remote repeatedBatch)).reconciler.store.rows =
        (d.step (.remote repeatedBatch)).reconciler.store.rows ∧
      ((d.step (.remote repeatedBatch)).step (.remote repeatedBatch)).reconciler.ledger.observed =
        (d.step (.remote repeatedBatch)).reconciler.ledger.observed ∧
      (d.step (.remote changeForEach)).reconciler.store.confirmed = [("E1",⟨42⟩)] ∧
      ((d.step (.remote changeForEach)).step (.remote changeForEach)).reconciler.store =
        (d.step (.remote changeForEach)).reconciler.store := by
  intro d
  have hfiled : ∀ c ∈ repeatedBatch, FiledUnder c.key c.row := by
    simp [repeatedBatch,FiledUnder,Row.key,Entity.inState]
  have hfiled' : ∀ c ∈ changeForEach, FiledUnder c.key c.row := by
    simp [changeForEach,FiledUnder,Row.key,Entity.inState]
  have hfits : d.reconciler.ledger.observed.Fits (d.reconciler.ledger.recordings repeatedBatch) :=
    Nat.le_of_ble_eq_true (by decide +kernel)
  have hone : (changeForEach.map (·.key)).Nodup := by decide +kernel
  have h := (redelivery_harmless d repeatedBatch).1
  have h' := (redelivery_harmless d changeForEach).1
  exact ⟨by decide +kernel,by decide +kernel,h.rows hfiled,h.observed hfits,by decide +kernel,
    h'.unreported hfiled' hone⟩

end Desk
end FieldReplica
