import FieldReplica.Stream.Message

/-!
# Observed transactions

The transactions that the stream has shown for keys whose mutation was not yet answered, so that a
confirmation that overtakes the answer still counts. Only the newest ones are remembered. A queue has them in
the order in which they came, so that the oldest can be forgotten, and a set has them for looking up; one
is changed after the other, and both keep the same pairs (`TxidQueue.Sound.record`).
-/
namespace FieldReplica

/-- Pairs of a key and a transaction in a queue, the oldest first, and the pairs that can be looked up, in
any order. -/
structure TxidQueue where
  capacity : Nat
  order : List (String × Txid)
  seen : List (String × Txid)
deriving DecidableEq

namespace TxidQueue

/-- Nothing observed. -/
def create (capacity : Nat) : TxidQueue := ⟨capacity, [], []⟩

def contains (q : TxidQueue) (key : String) (txid : Txid) : Bool := (key, txid) ∈ q.seen

/-- Forget the oldest pairs as long as there are too many. -/
def evict (capacity : Nat) (seen : List (String × Txid)) :
    List (String × Txid) → List (String × Txid) × List (String × Txid)
  | [] => ([], seen)
  | oldest :: order =>
    if capacity < (oldest :: order).length then evict capacity (seen.filter (· ≠ oldest)) order
    else (oldest :: order, seen)

/-- Remember a pair; one that can be looked up already keeps its place. -/
def record (q : TxidQueue) (key : String) (txid : Txid) : TxidQueue :=
  if q.contains key txid then q
  else
    let (order, seen) := evict q.capacity ((key, txid) :: q.seen) (q.order ++ [(key, txid)])
    { q with order, seen }

/-- The pairs that can be looked up are those of the queue, and none comes twice. -/
structure Sound (q : TxidQueue) : Prop where
  nodup : q.order.Nodup
  same : q.seen.Perm q.order

theorem sound_create (capacity : Nat) : (create capacity).Sound := ⟨.nil, .nil⟩

/-- What is evicted leaves the queue and the set alike. -/
theorem sound_evict (capacity : Nat) {seen order : List (String × Txid)} (hn : order.Nodup)
    (hs : seen.Perm order) :
    (evict capacity seen order).1.Nodup ∧ (evict capacity seen order).2.Perm (evict capacity seen order).1 := by
  induction order generalizing seen with
  | nil => exact ⟨hn, hs⟩
  | cons oldest order ih =>
    obtain ⟨hfresh, hrest⟩ := List.nodup_cons.mp hn
    rw [evict]
    split
    · refine ih hrest ?_
      have hkept : order.filter (· ≠ oldest) = order := by
        rw [List.filter_eq_self]
        intro e he
        exact decide_eq_true fun h => hfresh (h ▸ he)
      have hperm := hs.filter (· ≠ oldest)
      rw [List.filter_cons_of_neg (by simp), hkept] at hperm
      exact hperm
    · exact ⟨hn, hs⟩

theorem Sound.mem_iff {q : TxidQueue} (h : q.Sound) (e : String × Txid) :
    q.contains e.1 e.2 = true ↔ e ∈ q.order := by
  rw [contains, decide_eq_true_iff, h.same.mem_iff]

theorem Sound.record {q : TxidQueue} (h : q.Sound) (key : String) (txid : Txid) :
    (q.record key txid).Sound := by
  rw [TxidQueue.record]
  split
  · exact h
  · next hc =>
    have hfresh : (key, txid) ∉ q.order := fun hm => hc ((h.mem_iff (key, txid)).mpr hm)
    have hback : (q.order ++ [(key, txid)]).Perm ((key, txid) :: q.order) := List.perm_append_singleton _ _
    have hn : (q.order ++ [(key, txid)]).Nodup := hback.nodup_iff.mpr (List.nodup_cons.mpr ⟨hfresh, h.nodup⟩)
    obtain ⟨hnodup, hsame⟩ := sound_evict q.capacity hn ((h.same.cons _).trans hback.symm)
    exact ⟨hnodup, hsame⟩

end TxidQueue

/-- The transactions that are remembered. -/
structure ObservedTxids where
  queue : TxidQueue
  sound : queue.Sound
deriving DecidableEq

namespace ObservedTxids

/-- Nothing observed. -/
def create (capacity : Nat) : ObservedTxids := ⟨.create capacity, TxidQueue.sound_create capacity⟩

def capacity (o : ObservedTxids) : Nat := o.queue.capacity

/-- The pairs that are remembered, the newest first. -/
def entries (o : ObservedTxids) : List (String × Txid) := o.queue.order.reverse

def contains (o : ObservedTxids) (key : String) (txid : Txid) : Bool := o.queue.contains key txid

/-- Remember a pair. -/
def record (o : ObservedTxids) (key : String) (txid : Txid) : ObservedTxids :=
  ⟨o.queue.record key txid, o.sound.record key txid⟩

/-- Remember some transactions of a key in order. -/
def recordAll (o : ObservedTxids) (key : String) (txids : List Txid) : ObservedTxids :=
  txids.foldl (fun o t => o.record key t) o

end ObservedTxids
end FieldReplica
