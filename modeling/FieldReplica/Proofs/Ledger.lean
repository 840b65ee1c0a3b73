import FieldReplica.Reconciler.Pending
import FieldReplica.Proofs.Observed
import FieldReplica.Proofs.Store

/-!
# The ledger key by key

Remote changes and full images treat every key by itself: what becomes of the record of a key follows
from that record and from what the server says about the key.
-/
namespace FieldReplica

variable {R : Type}

namespace Pending

/-- What a remote change to its key leaves of a record. -/
def afterChange (p : Pending R) (c : RemoteChange R) : Option (Pending R) :=
  if (p.matched? c.txids).isSome then none else some { p with base := c.row }

private theorem matched?_eq_some {p : Pending R} {txids : List Txid} {t : Txid} :
    p.matched? txids = some t ↔ p.progress = .awaiting t ∧ t ∈ txids := by
  rw [matched?,Option.filter_eq_some_iff]
  cases hp : p.progress <;> simp [txid?,hp]

/-- What a value of the server in a full image leaves of a record. -/
def afterImage [Row R] (p : Pending R) (server : Option R) : Option (Pending R) :=
  if (p.reflected? server).isSome then none else some { p with base := server }

theorem reflected?_eq_some [Row R] {p : Pending R} {server : Option R} {t : Txid} :
    p.reflected? server = some t ↔ p.progress = .awaiting t ∧ p.mutation.isReflectedBy server := by
  rw [reflected?,Option.filter_eq_some_iff]
  cases hp : p.progress <;> simp [txid?,hp]

end Pending

namespace Ledger

theorem find?_eq_some {l : Ledger R} {key : String} {id : Nat} {p : Pending R} :
    l.find? key id = some p ↔ l.pending.find? key = some p ∧ p.id = id := by
  rw [find?,Option.filter_eq_some_iff]
  simp

theorem receive_of_none {l : Ledger R} {c : RemoteChange R} (h : l.pending.find? c.key = none) :
    l.receive c = ⟨l,[.restore c.key c.row],[]⟩ := by
  rw [receive,h]

theorem receive_of_matched {l : Ledger R} {c : RemoteChange R} {p : Pending R} {t : Txid}
    (h : l.pending.find? c.key = some p) (ht : p.matched? c.txids = some t) :
    l.receive c = ⟨l.remove c.key,[.restore c.key c.row],[⟨p.id,c.key,t⟩]⟩ := by
  simp only [receive,h,ht]

theorem receive_of_unmatched {l : Ledger R} {c : RemoteChange R} {p : Pending R}
    (h : l.pending.find? c.key = some p) (ht : p.matched? c.txids = none) :
    l.receive c = ⟨⟨l.pending.insert c.key { p with base := c.row },
      l.observed.recordAll c.key c.txids⟩,[],[]⟩ := by
  simp only [receive,h,ht]

/-- The record of a key after a remote change. -/
theorem find?_receive (l : Ledger R) (c : RemoteChange R) (key : String) :
    (l.receive c).ledger.pending.find? key =
      if key = c.key then (l.pending.find? key).bind (·.afterChange c) else l.pending.find? key := by
  cases hp : l.pending.find? c.key with
  | none =>
    rw [receive_of_none hp]
    split
    · next h => rw [h,hp]; rfl
    · rfl
  | some p =>
    cases ht : p.matched? c.txids with
    | some t =>
      rw [receive_of_matched hp ht,remove,Table.find?_erase_of]
      split
      · next h => simp [h,hp,Pending.afterChange,ht]
      · rfl
    | none =>
      rw [receive_of_unmatched hp ht,Table.find?_insert_of]
      split
      · next h => simp [h,hp,Pending.afterChange,ht]
      · rfl

/-- A record that a change leaves was there before; if it is that of the change's key then the change does not
confirm its mutation. -/
theorem find?_receive_eq_some {l : Ledger R} {c : RemoteChange R} {key : String} {q : Pending R} :
    (l.receive c).ledger.pending.find? key = some q ↔ ∃ p, l.pending.find? key = some p ∧
      ((c.key ≠ key ∧ q = p) ∨
        (c.key = key ∧ p.matched? c.txids = none ∧ q = { p with base := c.row })) := by
  rw [find?_receive]
  by_cases hk : key = c.key
  · rw [if_pos hk,Option.bind_eq_some_iff]
    refine exists_congr fun p => and_congr_right fun _ => ?_
    rw [Pending.afterChange]
    cases p.matched? c.txids <;> simp [hk,eq_comm]
  · simp [hk,Ne.symm hk]

theorem receiveAll_cons (l : Ledger R) (c : RemoteChange R) (cs : List (RemoteChange R)) :
    l.receiveAll (c::cs) =
      ⟨((l.receive c).ledger.receiveAll cs).ledger,
        (l.receive c).writes ++ ((l.receive c).ledger.receiveAll cs).writes,
        (l.receive c).confirmed ++ ((l.receive c).ledger.receiveAll cs).confirmed⟩ := rfl

theorem receiveAll_append (l : Ledger R) (cs ds : List (RemoteChange R)) :
    l.receiveAll (cs ++ ds) =
      ⟨((l.receiveAll cs).ledger.receiveAll ds).ledger,
        (l.receiveAll cs).writes ++ ((l.receiveAll cs).ledger.receiveAll ds).writes,
        (l.receiveAll cs).confirmed ++ ((l.receiveAll cs).ledger.receiveAll ds).confirmed⟩ := by
  induction cs generalizing l with
  | nil => rfl
  | cons c cs ih => simp only [List.cons_append,receiveAll_cons,ih,List.append_assoc]

/-- Without a record on any key, all changes are put in the store. -/
theorem receiveAll_of_none {l : Ledger R} (h : ∀ k, l.pending.find? k = none)
    (cs : List (RemoteChange R)) : l.receiveAll cs = ⟨l,cs.map fun c => .restore c.key c.row,[]⟩ := by
  induction cs with
  | nil => rfl
  | cons c cs ih => simp only [receiveAll,receive_of_none (h c.key),ih,List.map_cons,List.singleton_append,
      List.append_nil]

/-- The pairs that a batch has the ledger remember: those of the changes that leave a record as it is. -/
def recordings (l : Ledger R) : List (RemoteChange R) → List (String × Txid)
  | [] => []
  | c::cs =>
    (match l.pending.find? c.key with
    | some p => if (p.matched? c.txids).isSome then [] else c.txids.map fun t => (c.key,t)
    | none => []) ++ (l.receive c).ledger.recordings cs

theorem observed_receiveAll (l : Ledger R) (cs : List (RemoteChange R)) :
    (l.receiveAll cs).ledger.observed = l.observed.note (l.recordings cs) := by
  induction cs generalizing l with
  | nil => rfl
  | cons c cs ih =>
    rw [receiveAll_cons,recordings,ObservedTxids.note_append]
    dsimp only
    rw [ih]
    congr 1
    cases hp : l.pending.find? c.key with
    | none => rw [receive_of_none hp]; rfl
    | some p =>
      cases ht : p.matched? c.txids with
      | some t => rw [receive_of_matched hp ht]; simp [ht,ObservedTxids.note,remove]
      | none =>
        rw [receive_of_unmatched hp ht]
        simp only [ht,Option.isSome_none,Bool.false_eq_true,if_false]
        exact ObservedTxids.recordAll_eq_note _ _ _

/-- As long as no change has the transaction that a mutation waits for, the transactions of the changes to its
key are remembered. -/
theorem mem_recordings_of_unmatched {l : Ledger R} {key : String} {p : Pending R}
    {cs : List (RemoteChange R)} (hp : l.pending.find? key = some p)
    (hn : ∀ c ∈ cs, c.key = key → p.matched? c.txids = none) {c : RemoteChange R} (hc : c ∈ cs)
    (hk : c.key = key) {t : Txid} (htx : t ∈ c.txids) : (key,t) ∈ l.recordings cs := by
  induction cs generalizing l p with
  | nil => cases hc
  | cons x cs ih =>
    rw [recordings]
    rcases List.mem_cons.mp hc with rfl | hc
    · apply List.mem_append_left
      rw [hk,hp]
      simp only [hn c List.mem_cons_self hk,Option.isSome_none,Bool.false_eq_true,if_false]
      exact List.mem_map.mpr ⟨t,htx,rfl⟩
    · apply List.mem_append_right
      have hrest : ∀ y ∈ cs, y.key = key → p.matched? y.txids = none :=
        fun y hy => hn y (List.mem_cons_of_mem _ hy)
      by_cases hx : x.key = key
      · have hfind : (l.receive x).ledger.pending.find? key = some { p with base := x.row } :=
          find?_receive_eq_some.mpr ⟨p,hp,.inr ⟨hx,hn x List.mem_cons_self hx,rfl⟩⟩
        exact ih hfind hrest hc
      · have hfind : (l.receive x).ledger.pending.find? key = some p :=
          find?_receive_eq_some.mpr ⟨p,hp,.inl ⟨hx,rfl⟩⟩
        exact ih hfind hrest hc

/-- While a mutation has no transaction, those of the changes to its key are remembered. -/
theorem mem_recordings {l : Ledger R} {key : String} {p : Pending R} {cs : List (RemoteChange R)}
    (hp : l.pending.find? key = some p) (ht : p.txid? = none) {c : RemoteChange R} (hc : c ∈ cs)
    (hk : c.key = key) {t : Txid} (htx : t ∈ c.txids) : (key,t) ∈ l.recordings cs :=
  mem_recordings_of_unmatched hp (fun c _ _ => by rw [Pending.matched?,ht]; rfl) hc hk htx

/-- What is remembered is the transaction of a change to a key that has a record. -/
theorem mem_of_recordings {l : Ledger R} {cs : List (RemoteChange R)} {e : String × Txid}
    (h : e ∈ l.recordings cs) :
    (l.pending.find? e.1).isSome ∧ ∃ c ∈ cs, c.key = e.1 ∧ e.2 ∈ c.txids := by
  induction cs generalizing l with
  | nil => cases h
  | cons c cs ih =>
    rw [recordings] at h
    rcases List.mem_append.mp h with h | h
    · split at h
      · next p hp =>
        split at h
        · cases h
        · obtain ⟨t,ht,rfl⟩ := List.mem_map.mp h
          exact ⟨by rw [hp]; rfl,c,List.mem_cons_self,rfl,ht⟩
      · cases h
    · obtain ⟨hsome,x,hx,hk,ht⟩ := ih h
      refine ⟨?_,x,List.mem_cons_of_mem _ hx,hk,ht⟩
      rw [find?_receive] at hsome
      cases hp : l.pending.find? e.1 with
      | none =>
        rw [hp,Option.bind_none,ite_self] at hsome
        cases hsome
      | some p => rfl

/-- What becomes of the record of a key depends on no other record. -/
theorem find?_receiveAll_congr {l l' : Ledger R} {key : String}
    (h : l'.pending.find? key = l.pending.find? key) (cs : List (RemoteChange R)) :
    (l'.receiveAll cs).ledger.pending.find? key = (l.receiveAll cs).ledger.pending.find? key := by
  induction cs generalizing l l' with
  | nil => exact h
  | cons c cs ih => exact ih (by rw [find?_receive,find?_receive,h])

/-- A key without a record gets none from a batch, and nothing is confirmed under it. -/
theorem receiveAll_of_absent {l : Ledger R} {key : String} (h : l.pending.find? key = none)
    (cs : List (RemoteChange R)) : (l.receiveAll cs).ledger.pending.find? key = none ∧
      (l.receiveAll cs).confirmed.filter (·.key = key) = [] := by
  induction cs generalizing l with
  | nil => exact ⟨h,rfl⟩
  | cons c cs ih =>
    have hn : (l.receive c).ledger.pending.find? key = none := by
      rw [find?_receive,h,Option.bind_none,ite_self]
    obtain ⟨hfind,hconf⟩ := ih hn
    rw [receiveAll_cons,List.filter_append,hconf,List.append_nil]
    refine ⟨hfind,?_⟩
    cases hp : l.pending.find? c.key with
    | none => rw [receive_of_none hp]; rfl
    | some p =>
      have hk : c.key ≠ key := by rintro rfl; rw [h] at hp; cases hp
      cases ht : p.matched? c.txids with
      | some t => rw [receive_of_matched hp ht]; simp [hk]
      | none => rw [receive_of_unmatched hp ht]; rfl

/-- A batch confirms the mutation of a key exactly if it has the mutation's own transaction for the
key, and confirms it once. -/
theorem receiveAll_of_present {l : Ledger R} {key : String} {p : Pending R}
    (hp : l.pending.find? key = some p) (cs : List (RemoteChange R)) :
    (∃ t, p.progress = .awaiting t ∧ (∃ c ∈ cs, c.key = key ∧ t ∈ c.txids) ∧
      (l.receiveAll cs).ledger.pending.find? key = none ∧
      (l.receiveAll cs).confirmed.filter (·.key = key) = [⟨p.id,key,t⟩]) ∨
    ((∀ c ∈ cs, c.key = key → p.matched? c.txids = none) ∧
      (∃ base, (l.receiveAll cs).ledger.pending.find? key = some { p with base := base }) ∧
      (l.receiveAll cs).confirmed.filter (·.key = key) = []) := by
  induction cs generalizing l p with
  | nil => exact .inr ⟨nofun,⟨p.base,hp⟩,rfl⟩
  | cons c cs ih =>
    have hfind := find?_receive l c key
    rw [receiveAll_cons,List.filter_append]
    by_cases hk : key = c.key
    · subst hk
      cases ht : p.matched? c.txids with
      | some t =>
        obtain ⟨hprogress,hmem⟩ := Pending.matched?_eq_some.mp ht
        rw [if_pos rfl,hp,Option.bind_some,Pending.afterChange,ht] at hfind
        obtain ⟨hn,hconf⟩ := receiveAll_of_absent hfind cs
        refine .inl ⟨t,hprogress,⟨c,List.mem_cons_self,rfl,hmem⟩,hn,?_⟩
        rw [hconf,receive_of_matched hp ht]
        simp
      | none =>
        rw [if_pos rfl,hp,Option.bind_some,Pending.afterChange,ht] at hfind
        have hconf : (l.receive c).confirmed = [] := by rw [receive_of_unmatched hp ht]
        rw [hconf,List.filter_nil,List.nil_append]
        rcases ih hfind with ⟨t,hprogress,⟨x,hx,hxk,hxt⟩,hrest⟩ | ⟨hnone,hrest⟩
        · exact .inl ⟨t,hprogress,⟨x,List.mem_cons_of_mem _ hx,hxk,hxt⟩,hrest⟩
        · refine .inr ⟨fun x hx hxk => ?_,hrest⟩
          rcases List.mem_cons.mp hx with rfl | hx
          · exact ht
          · exact hnone x hx hxk
    · rw [if_neg hk,hp] at hfind
      have hconf : (l.receive c).confirmed.filter (·.key = key) = [] := by
        rw [receive]
        split
        · rfl
        · split
          · simp [Ne.symm hk]
          · rfl
      rw [hconf,List.nil_append]
      rcases ih hfind with ⟨t,hprogress,⟨x,hx,hxk,hxt⟩,hrest⟩ | ⟨hnone,hrest⟩
      · exact .inl ⟨t,hprogress,⟨x,List.mem_cons_of_mem _ hx,hxk,hxt⟩,hrest⟩
      · refine .inr ⟨fun x hx hxk => ?_,hrest⟩
        rcases List.mem_cons.mp hx with rfl | hx
        · exact absurd hxk.symm hk
        · exact hnone x hx hxk

/-- A batch with the transaction that a mutation waits for confirms the mutation. -/
theorem receiveAll_of_awaited {l : Ledger R} {key : String} {p : Pending R}
    (hp : l.pending.find? key = some p) {t : Txid} (ht : p.progress = .awaiting t)
    {cs : List (RemoteChange R)} (hcs : ∃ c ∈ cs, c.key = key ∧ t ∈ c.txids) :
    (l.receiveAll cs).ledger.pending.find? key = none ∧
      (l.receiveAll cs).confirmed.filter (·.key = key) = [⟨p.id,key,t⟩] := by
  rcases receiveAll_of_present hp cs with ⟨t',ht',_,hn,hconf⟩ | ⟨hnone,_⟩
  · cases ht.symm.trans ht'
    exact ⟨hn,hconf⟩
  · obtain ⟨c,hc,hk,hmem⟩ := hcs
    cases (hnone c hc hk).symm.trans (Pending.matched?_eq_some.mpr ⟨ht,hmem⟩)

/-- The record of a key after a full image. -/
theorem find?_rebase [Row R] (l : Ledger R) (image : Table String R) (key : String) :
    (l.rebase image).pending.find? key =
      (l.pending.find? key).bind (·.afterImage (image.find? key)) := by
  rw [rebase,Table.find?_map,Table.find?_filter]
  cases l.pending.find? key with
  | none => rfl
  | some p => cases h : p.reflected? (image.find? key) <;> simp [Pending.afterImage,Option.filter,h]

/-- A record that a full image leaves was there before, and the image does not show its mutation. -/
theorem find?_rebase_eq_some [Row R] {l : Ledger R} {image : Table String R} {key : String} {q : Pending R} :
    (l.rebase image).pending.find? key = some q ↔ ∃ p, l.pending.find? key = some p ∧
      p.reflected? (image.find? key) = none ∧ q = { p with base := image.find? key } := by
  rw [find?_rebase,Option.bind_eq_some_iff]
  refine exists_congr fun p => and_congr_right fun _ => ?_
  rw [Pending.afterImage]
  cases p.reflected? (image.find? key) <;> simp [eq_comm]

theorem mem_reflectedBy [Row R] {l : Ledger R} {image : Table String R} {c : Confirmation} :
    c ∈ l.reflectedBy image ↔ ∃ p, l.pending.find? c.key = some p ∧ p.id = c.id ∧
      p.reflected? (image.find? c.key) = some c.txid := by
  rw [reflectedBy,List.mem_filterMap]
  constructor
  · rintro ⟨⟨key,p⟩,hp,hc⟩
    obtain ⟨t,ht,rfl⟩ := Option.map_eq_some_iff.mp hc
    exact ⟨p,Table.mem_entries.mp hp,rfl,ht⟩
  · rintro ⟨p,hp,hid,ht⟩
    refine ⟨(c.key,p),Table.mem_entries.mpr hp,?_⟩
    rw [Option.map_eq_some_iff]
    exact ⟨c.txid,ht,by rw [hid]⟩

/-- What an image confirms comes in key order. -/
theorem ascending_reflectedBy [Row R] (l : Ledger R) (image : Table String R) :
    (l.reflectedBy image).Pairwise (fun c c' => compare c.key c'.key = .lt) := by
  refine List.Pairwise.filterMap _ ?_ l.pending.ascending
  intro e e' hlt c hc c' hc'
  obtain ⟨_,_,rfl⟩ := Option.map_eq_some_iff.mp hc
  obtain ⟨_,_,rfl⟩ := Option.map_eq_some_iff.mp hc'
  exact hlt

end Ledger
end FieldReplica
