import FieldReplica.Proofs.Image
import FieldReplica.Proofs.Run
import Mathlib.Data.List.Dedup
import Mathlib.Data.List.Induction

/-!
# Revalidation by a full image

A full image holds the pending mutations against itself one by one, in an order that nobody promises. A mutation
that waits for its transaction and that the image shows is confirmed; every other one stays, over the value that
the image has for its key. Every key without a record then shows what the image has. Since the records are judged
by themselves, the order does not matter, and the same image again finds nothing to do.
-/
namespace FieldReplica

variable {R : Type} [Row R]

namespace Ledger

/-- Hold the record of a key against a full image. -/
def revalidate (l : Ledger R) (image : Table String R) (key : String) : Ledger R × List Confirmation :=
  match l.pending.find? key with
  | none => (l,[])
  | some p =>
    match p.reflected? (image.find? key) with
    | some t => (l.remove key,[⟨p.id,key,t⟩])
    | none => (l.put key { p with base := image.find? key },[])

/-- Hold the records of some keys against a full image, one after the other. -/
def revalidateAll (l : Ledger R) (image : Table String R) : List String → Ledger R × List Confirmation
  | [] => (l,[])
  | key::keys =>
    let first := l.revalidate image key
    let rest := first.1.revalidateAll image keys
    (rest.1,first.2 ++ rest.2)

/-- What a full image confirms under a key. -/
def confirmation? (l : Ledger R) (image : Table String R) (key : String) : Option Confirmation :=
  (l.pending.find? key).bind fun p => (p.reflected? (image.find? key)).map fun t => ⟨p.id,key,t⟩

variable {l : Ledger R} {image : Table String R} {key : String} {order : List String}

private theorem observed_revalidateAll (l : Ledger R) (image : Table String R) (order : List String) :
    (l.revalidateAll image order).1.observed = l.observed := by
  induction order generalizing l with
  | nil => rfl
  | cons key keys ih =>
    have hone : (l.revalidate image key).1.observed = l.observed := by
      rw [revalidate]
      split
      · rfl
      · split <;> rfl
    rw [revalidateAll,ih,hone]

private theorem find?_revalidate (l : Ledger R) (image : Table String R) (key k : String) :
    (l.revalidate image key).1.pending.find? k = if k = key then
      (l.pending.find? key).bind (·.afterImage (image.find? key)) else l.pending.find? k := by
  rw [revalidate]
  cases hp : l.pending.find? key with
  | none =>
    dsimp only
    split
    · next hk => rw [hk,hp]; rfl
    · rfl
  | some p =>
    cases ht : p.reflected? (image.find? key) with
    | some t =>
      simp only [ht,remove,Table.find?_erase_of]
      split
      · simp [Pending.afterImage,ht]
      · rfl
    | none =>
      simp only [ht,put,Table.find?_insert_of]
      split
      · simp [Pending.afterImage,ht]
      · rfl

private theorem confirmed_revalidate (l : Ledger R) (image : Table String R) (key : String) :
    (l.revalidate image key).2 = (l.confirmation? image key).toList := by
  rw [revalidate,confirmation?]
  cases hp : l.pending.find? key with
  | none => rfl
  | some p => cases ht : p.reflected? (image.find? key) <;> simp [ht]

private theorem find?_revalidateAll (hn : order.Nodup) (l : Ledger R) (image : Table String R) (k : String) :
    (l.revalidateAll image order).1.pending.find? k = if k ∈ order then
      (l.pending.find? k).bind (·.afterImage (image.find? k)) else l.pending.find? k := by
  induction order generalizing l with
  | nil => rfl
  | cons key keys ih =>
    obtain ⟨hkey,hkeys⟩ := List.nodup_cons.mp hn
    rw [revalidateAll]
    dsimp only
    rw [ih hkeys,find?_revalidate]
    by_cases hk : k = key
    · subst hk
      simp [hkey]
    · simp [hk]

private theorem confirmed_revalidateAll (hn : order.Nodup) (l : Ledger R) (image : Table String R) :
    (l.revalidateAll image order).2 = order.filterMap (l.confirmation? image) := by
  induction order generalizing l with
  | nil => rfl
  | cons key keys ih =>
    obtain ⟨hkey,hkeys⟩ := List.nodup_cons.mp hn
    -- A key is visited once, so the keys that are left have the records that they had at first.
    have hrest : keys.filterMap ((l.revalidate image key).1.confirmation? image) =
        keys.filterMap (l.confirmation? image) := by
      apply List.filterMap_congr
      intro k hk
      have hne : k ≠ key := by rintro rfl; exact hkey hk
      rw [confirmation?,confirmation?,find?_revalidate,if_neg hne]
    rw [revalidateAll]
    dsimp only
    rw [ih hkeys,hrest,confirmed_revalidate,List.filterMap_cons]
    cases l.confirmation? image key <;> rfl

/-- In whatever order the records are held against an image, what is left of the ledger is the same. -/
theorem revalidateAll_eq_rebase (horder : order.Perm l.pending.keys) (image : Table String R) :
    (l.revalidateAll image order).1 = l.rebase image := by
  have hn : order.Nodup := horder.nodup_iff.mpr (Table.nodup_keys _)
  have hpending : (l.revalidateAll image order).1.pending = (l.rebase image).pending := by
    apply Table.ext_find?
    intro k
    rw [find?_revalidateAll hn,find?_rebase]
    split
    · rfl
    · next hk =>
      rw [horder.mem_iff,Table.mem_keys,Option.not_isSome_iff_eq_none] at hk
      rw [hk]
      rfl
  have hobserved := observed_revalidateAll l image order
  cases hl : (l.revalidateAll image order).1 with
  | mk pending observed =>
    rw [hl] at hpending hobserved
    rw [rebase,← hobserved]
    congr 1

theorem reflectedBy_eq (l : Ledger R) (image : Table String R) :
    l.reflectedBy image = l.pending.keys.filterMap (l.confirmation? image) := by
  rw [reflectedBy,Table.keys,List.filterMap_map]
  apply List.filterMap_congr
  rintro ⟨k,p⟩ hp
  simp only [Function.comp,confirmation?,Table.mem_entries.mp hp,Option.bind_some]

private theorem perm_reflectedBy (horder : order.Perm l.pending.keys) (image : Table String R) :
    (l.revalidateAll image order).2.Perm (l.reflectedBy image) := by
  rw [confirmed_revalidateAll (horder.nodup_iff.mpr (Table.nodup_keys _)),reflectedBy_eq]
  exact horder.filterMap _

/-- What an image leaves pending it does not show, so it has nothing more to do when it comes again. -/
theorem rebase_again (l : Ledger R) (image : Table String R) :
    (l.rebase image).rebase image = l.rebase image ∧ (l.rebase image).reflectedBy image = [] := by
  have hafter : ∀ {key : String} {q : Pending R}, (l.rebase image).pending.find? key = some q →
      q.base = image.find? key ∧ q.reflected? (image.find? key) = none := by
    intro key q hq
    obtain ⟨p,_,hn,rfl⟩ := find?_rebase_eq_some.mp hq
    exact ⟨rfl,hn⟩
  constructor
  · have hpending : ((l.rebase image).rebase image).pending = (l.rebase image).pending := by
      apply Table.ext_find?
      intro key
      rw [find?_rebase]
      cases hq : (l.rebase image).pending.find? key with
      | none => rfl
      | some q =>
        obtain ⟨hbase,hn⟩ := hafter hq
        rw [Option.bind_some,Pending.afterImage,hn,← hbase]
        rfl
    exact congrArg (Ledger.mk · l.observed) hpending
  · rw [List.eq_nil_iff_forall_not_mem]
    intro c hc
    obtain ⟨q,hq,_,ht⟩ := mem_reflectedBy.mp hc
    cases (hafter hq).2.symm.trans ht

end Ledger

/-! ### The rows of an image -/

/-- The row that a list has last for a key. -/
def lastOf (rows : List R) (key : String) : Option R := (rows.filter fun row => Row.key row = key).getLast?

private theorem find?_imageOf_eq_lastOf (rows : List R) (key : String) :
    (imageOf rows).find? key = lastOf rows key := by
  rw [find?_imageOf]
  induction rows using List.reverseRecOn with
  | nil => rfl
  | append_singleton rows row ih =>
    have hsplit : rowEntries (rows ++ [row]) = rowEntries rows ++ rowEntries [row] := List.map_append
    rw [hsplit,lastUnder_append,ih,lastOf,lastOf,List.filter_append]
    by_cases hk : Row.key row = key
    · simp [rowEntries,lastUnder_cons,hk]
    · simp [rowEntries,lastUnder_cons,hk]

/-- How many keys a list of rows has. -/
def keyCount (rows : List R) : Nat := (rows.map Row.key).dedup.length

private theorem size_imageOf (rows : List R) : (imageOf rows).size = keyCount rows := by
  have hperm : (imageOf rows).keys.Perm (rows.map Row.key).dedup := by
    rw [List.perm_ext_iff_of_nodup (Table.nodup_keys _) (List.nodup_dedup _)]
    intro key
    rw [Table.mem_keys,List.mem_dedup,List.mem_map,Option.isSome_iff_ne_none,ne_eq,find?_imageOf_eq_none,
      not_not]
  rw [keyCount,← hperm.length_eq,Table.keys,List.length_map,Table.size]

namespace Reconciler

/-! ### The image in the order in which the records are visited -/

/-- Apply a full image, its records being visited in the given order. -/
def applySnapshotIn (r : Reconciler R) (order : List String) (rows : List R) (resync : Bool) :
    Reconciler R × List Confirmation :=
  let image := imageOf rows
  let judged := r.ledger.revalidateAll image order
  let restores := judged.2.map fun c => Write.restore c.key (image.find? c.key)
  let upserts := (image.entries.filter fun e => !judged.1.pending.contains e.1).map fun e => .upsert e.2
  let written := ({ r with ledger := judged.1 }).write (r.removals image ++ restores ++ upserts)
  let noted := if resync then written.notify (.resynced image.size) else written
  (noted.announce judged.2,judged.2)

private theorem applySnapshot_eq (r : Reconciler R) (rows : List R) (resync : Bool) :
    r.applySnapshot rows resync = r.applySnapshotIn r.ledger.pending.keys rows resync := by
  have hconfirmed : (r.ledger.revalidateAll (imageOf rows) r.ledger.pending.keys).2 =
      r.ledger.reflectedBy (imageOf rows) := by
    rw [Ledger.confirmed_revalidateAll (Table.nodup_keys _),Ledger.reflectedBy_eq]
  rw [applySnapshotIn,Ledger.revalidateAll_eq_rebase (.refl _),hconfirmed]
  rfl

variable {r : Reconciler R} {order : List String} {rows : List R}

/-- The writes of an image whose records are visited in the given order. -/
def visitWrites (r : Reconciler R) (order : List String) (image : Table String R) : List (Write R) :=
  r.removals image ++
    (r.ledger.revalidateAll image order).2.map (fun c => .restore c.key (image.find? c.key)) ++
    (image.entries.filter fun e => !(r.ledger.rebase image).pending.contains e.1).map fun e => .upsert e.2

private theorem applySnapshotIn_eq (horder : order.Perm r.ledger.pending.keys) (rows : List R) (resync : Bool) :
    r.applySnapshotIn order rows resync =
      let confirmed := (r.ledger.revalidateAll (imageOf rows) order).2
      let written := ({ r with ledger := r.ledger.rebase (imageOf rows) }).write
        (r.visitWrites order (imageOf rows))
      ((if resync then written.notify (.resynced (keyCount rows)) else written).announce confirmed,
        confirmed) := by
  rw [applySnapshotIn,Ledger.revalidateAll_eq_rebase horder,size_imageOf]
  rfl

private theorem perm_visitWrites (horder : order.Perm r.ledger.pending.keys) (image : Table String R) :
    (r.visitWrites order image).Perm (r.imageWrites image) :=
  (((Ledger.perm_reflectedBy horder image).map _).append_left _).append_right _

private theorem ledger_applySnapshotIn (horder : order.Perm r.ledger.pending.keys) (rows : List R) (resync : Bool) :
    (r.applySnapshotIn order rows resync).1.ledger = r.ledger.rebase (imageOf rows) := by
  rw [applySnapshotIn_eq horder]
  cases resync <;> rfl

private theorem rows_applySnapshotIn (horder : order.Perm r.ledger.pending.keys) (rows : List R) (resync : Bool) :
    (r.applySnapshotIn order rows resync).1.store.rows =
      Write.applyAll r.store.rows (r.imageWrites (imageOf rows)) := by
  rw [← Write.applyAll_perm (perm_visitWrites horder _) fun w hw => (mem_imageWrites (filed_imageOf rows) hw).1,
    applySnapshotIn_eq horder]
  cases resync <;> rfl

/-- What a full image makes of a reconciler, and what it confirms. -/
structure Revalidated (r : Reconciler R) (rows : List R) (resync : Bool) (r' : Reconciler R)
    (cs : List Confirmation) : Prop where
  /-- A record ends if its mutation waits for its transaction and the image has the mutation's outcome, and not
  otherwise. -/
  retired : ∀ key p, r.ledger.pending.find? key = some p → (r'.ledger.pending.find? key = none ↔
    p.state = .awaitingConfirmation ∧ p.mutation.isReflectedBy (lastOf rows key) = true)
  /-- Of a record that stays only the server's value changes, and its row stays. -/
  kept : ∀ key q, r'.ledger.pending.find? key = some q →
    (∃ p, r.ledger.pending.find? key = some p ∧ q = { p with base := lastOf rows key }) ∧
      r'.store.rows.find? key = r.store.rows.find? key
  /-- Where no record stays the image stands. -/
  shown : ∀ key, r'.ledger.pending.find? key = none → r'.store.rows.find? key = lastOf rows key
  /-- The records that end are confirmed, each by its own transaction. -/
  confirmed : ∀ c, c ∈ cs ↔ ∃ p, r.ledger.pending.find? c.key = some p ∧ p.id = c.id ∧
    p.txid? = some c.txid ∧ p.mutation.isReflectedBy (lastOf rows c.key) = true
  once : (cs.map (·.key)).Nodup
  /-- The changes are reported first, then that the image came again, then the confirmations. -/
  reported : ∃ changes : List (Change R), r'.store.channel.log = r.store.channel.log ++ changes.map .changed ++
    (if resync then [.resynced (keyCount rows)] else []) ++ cs.map fun c => .confirmed c.key c.txid
  untouched : r'.ledger.observed = r.ledger.observed ∧ r'.nextId = r.nextId ∧ r'.closed = r.closed

private theorem revalidated_applySnapshotIn (horder : order.Perm r.ledger.pending.keys) (rows : List R)
    (resync : Bool) : r.Revalidated rows resync (r.applySnapshotIn order rows resync).1
      (r.applySnapshotIn order rows resync).2 := by
  have hledger := ledger_applySnapshotIn horder rows resync
  have hrows := rows_applySnapshotIn horder rows resync
  have hi := filed_imageOf rows
  have hconfirmed : (r.applySnapshotIn order rows resync).2.Perm (r.ledger.reflectedBy (imageOf rows)) :=
    Ledger.perm_reflectedBy horder _
  refine ⟨?_,?_,?_,?_,?_,?_,?_⟩
  · intro key p hp
    rw [hledger,Ledger.find?_rebase,hp,Option.bind_some,Pending.afterImage,find?_imageOf_eq_lastOf,
      Pending.reflected?,Pending.state,Pending.txid?]
    cases p.progress <;> simp [Option.filter]
  · intro key q hq
    rw [hledger] at hq
    rw [hrows]
    obtain ⟨p,hp,_,hbase⟩ := Ledger.find?_rebase_eq_some.mp hq
    rw [find?_imageOf_eq_lastOf] at hbase
    exact ⟨⟨p,hp,hbase⟩,find?_imageWrites_of_some hi hq _⟩
  · intro key hq
    rw [hledger] at hq
    rw [hrows,find?_imageWrites_of_none hi hq,find?_imageOf_eq_lastOf]
  · intro c
    rw [hconfirmed.mem_iff,Ledger.mem_reflectedBy,find?_imageOf_eq_lastOf]
    simp only [Pending.reflected?,Option.filter_eq_some_iff]
  · rw [(hconfirmed.map _).nodup_iff,List.Nodup,List.pairwise_map]
    refine (Ledger.ascending_reflectedBy _ _).imp ?_
    intro c c' hlt hkey
    rw [hkey] at hlt
    simp at hlt
  · refine ⟨Write.changes r.store.rows (r.visitWrites order (imageOf rows)),?_⟩
    rw [applySnapshotIn_eq horder]
    cases resync with
    | true => rfl
    | false =>
      simp only [Bool.false_eq_true,if_false,List.append_nil]
      rfl
  · rw [applySnapshotIn_eq horder]
    cases resync <;> exact ⟨rfl,rfl,rfl⟩

private theorem applySnapshotIn_again (horder : order.Perm r.ledger.pending.keys) (resync : Bool)
    {order' : List String} (horder' : order'.Perm (r.applySnapshotIn order rows resync).1.ledger.pending.keys)
    (resync' : Bool) :
    let once := (r.applySnapshotIn order rows resync).1
    once.applySnapshotIn order' rows resync' =
      (if resync' then once.notify (.resynced (keyCount rows)) else once,[]) := by
  intro once
  have hledger : once.ledger = r.ledger.rebase (imageOf rows) := ledger_applySnapshotIn horder rows resync
  obtain ⟨hrebase,hnone⟩ := r.ledger.rebase_again (imageOf rows)
  rw [← hledger] at hrebase hnone
  have hconfirmed : (once.ledger.revalidateAll (imageOf rows) order').2 = [] := by
    have hperm := Ledger.perm_reflectedBy horder' (imageOf rows)
    rw [hnone] at hperm
    exact hperm.eq_nil
  -- The image writes only to keys without a record, and those show it since the first time.
  have hshown : ∀ w ∈ once.visitWrites order' (imageOf rows), once.store.rows.find? w.entry.1 = w.entry.2 := by
    intro w hw
    obtain ⟨hv,hgone⟩ := mem_imageWrites (filed_imageOf rows) ((perm_visitWrites horder' _).mem_iff.mp hw)
    rw [hrebase] at hgone
    rw [(revalidated_applySnapshotIn horder rows resync).shown _ hgone,hv,find?_imageOf_eq_lastOf]
  have hwrite : ({ once with ledger := once.ledger } : Reconciler R).write
      (once.visitWrites order' (imageOf rows)) = once :=
    congrArg (fun s => ({ once with store := s } : Reconciler R)) (Store.write_of_shown hshown)
  rw [applySnapshotIn_eq horder',hrebase,hconfirmed]
  dsimp only
  rw [hwrite]
  cases resync' <;> simp [announce,Store.notifyAll,Channel.sendAll]

/-- A full image is held against the records in no particular order. Whatever the order, the image confirms the
mutations that wait for their transaction and whose outcome it has, leaves the others over its own values, and
stands wherever no record is left; the rows and the records are those of every other order; and when the image
comes again, nothing changes and nothing is confirmed. -/
theorem applySnapshot_revalidates (r : Reconciler R) (rows : List R) (resync : Bool) {order : List String}
    (horder : order.Perm r.ledger.pending.keys) :
    let once := r.applySnapshotIn order rows resync
    r.applySnapshot rows resync = r.applySnapshotIn r.ledger.pending.keys rows resync ∧
      r.Revalidated rows resync once.1 once.2 ∧
      (∀ order', order'.Perm r.ledger.pending.keys →
        (r.applySnapshotIn order' rows resync).1.ledger = once.1.ledger ∧
        (r.applySnapshotIn order' rows resync).1.store.rows = once.1.store.rows ∧
        (r.applySnapshotIn order' rows resync).2.Perm once.2) ∧
      ∀ order', order'.Perm once.1.ledger.pending.keys → ∀ resync',
        once.1.applySnapshotIn order' rows resync' =
          (if resync' then once.1.notify (.resynced (keyCount rows)) else once.1,[]) := by
  intro once
  refine ⟨applySnapshot_eq r rows resync,revalidated_applySnapshotIn horder rows resync,?_,?_⟩
  · intro order' horder'
    refine ⟨?_,?_,?_⟩
    · rw [ledger_applySnapshotIn horder',ledger_applySnapshotIn horder]
    · rw [rows_applySnapshotIn horder',rows_applySnapshotIn horder]
    · exact (Ledger.perm_reflectedBy horder' _).trans (Ledger.perm_reflectedBy horder _).symm
  · intro order' horder' resync'
    exact applySnapshotIn_again horder resync horder' resync'

/-- One mutation waits for its transaction and another one for the server's answer, next to a row that nobody
is at. -/
def twoInQueue : Reconciler Entity := ((Desk.create 8 30000).after [
  .remote [⟨"E1",some (.inState "E1" .ready),[]⟩,⟨"E2",some (.inState "E2" .ready),[]⟩,
    ⟨"E4",some (.inState "E4" .ready),[]⟩],
  .stage "" (Entity.setStatus "E1" .validated),
  .submit 1,
  .stage "" (Entity.setStatus "E2" .validated),
  .submit 2,
  .reply 1 (.ok ⟨42⟩)]).reconciler

/-- An image that has the outcome of both mutations, after an earlier row of the first one's feature. -/
def bothValidated : List Entity :=
  [.inState "E1" .ready,.inState "E3" .ready,.inState "E2" .validated,.inState "E1" .validated]

/-- The mutations are visited against their order of keys: the one that waits for its transaction is confirmed,
and the one that has none yet stays. -/
theorem applySnapshot_revalidates_backwards :
    let once := twoInQueue.applySnapshotIn ["E2","E1"] bothValidated true
    once.2 = [⟨1,"E1",⟨42⟩⟩] ∧
      once.1.ledger.pending.find? "E1" = none ∧
      once.1.store.rows.find? "E1" = some (.inState "E1" .validated) ∧
      (once.1.ledger.pending.find? "E2").map (·.base) = some (some (.inState "E2" .validated)) ∧
      once.1.store.rows.find? "E3" = some (.inState "E3" .ready) ∧
      once.1.store.rows.find? "E4" = none ∧
      once.1.applySnapshotIn ["E2"] bothValidated false = (once.1,[]) := by
  have horder : ["E2","E1"].Perm twoInQueue.ledger.pending.keys := by
    have hkeys : twoInQueue.ledger.pending.keys = ["E1","E2"] := by decide +kernel
    rw [hkeys]
    exact .swap "E1" "E2" []
  obtain ⟨_,h,_,hagain⟩ := applySnapshot_revalidates twoInQueue bothValidated true horder
  have hleft : ["E2"].Perm
      (twoInQueue.applySnapshotIn ["E2","E1"] bothValidated true).1.ledger.pending.keys := by
    decide +kernel
  have hgone : (twoInQueue.applySnapshotIn ["E2","E1"] bothValidated true).1.ledger.pending.find? "E1" =
      none := by
    decide +kernel
  refine ⟨by decide +kernel,hgone,?_,by decide +kernel,?_,?_,hagain _ hleft false⟩
  · rw [h.shown _ hgone]
    decide +kernel
  · rw [h.shown _ (by decide +kernel)]
    decide +kernel
  · rw [h.shown _ (by decide +kernel)]
    decide +kernel

end Reconciler
end FieldReplica
