import FieldReplica.Reconciler.ObservedTxids
import Mathlib.Data.List.Dedup

/-!
# How long a transaction is remembered

A pair keeps its place until as many other pairs have been recorded after it as are remembered. A pair
that comes again while it is remembered is not recorded again. So the pairs that are remembered are the newest of
those that were recorded.
-/
namespace FieldReplica

namespace TxidQueue

/-- The last pairs of a list, as many as are asked for. -/
def newest (n : Nat) (pairs : List (String × Txid)) : List (String × Txid) := pairs.drop (pairs.length - n)

variable {q : TxidQueue} {e : String × Txid}

private theorem record_of_contains (h : q.contains e.1 e.2 = true) : q.record e.1 e.2 = q := by
  rw [record,if_pos h]

private theorem order_evict (capacity : Nat) (seen order : List (String × Txid)) :
    (evict capacity seen order).1 = newest capacity order := by
  induction order generalizing seen with
  | nil => rw [evict,newest,List.drop_nil]
  | cons oldest order ih =>
    rw [evict]
    split
    · next h =>
      have hone : (oldest::order).length - capacity = order.length - capacity + 1 := by
        rw [List.length_cons] at h ⊢
        omega
      rw [ih,newest,newest,hone,List.drop_succ_cons]
    · next h => rw [newest,Nat.sub_eq_zero_of_le (Nat.le_of_not_lt h),List.drop_zero]

/-- A new pair is put last, and the oldest pairs go that are too many. -/
theorem order_record (h : q.contains e.1 e.2 = false) :
    (q.record e.1 e.2).order = newest q.capacity (q.order ++ [e]) := by
  rw [record,if_neg (ne_true_of_eq_false h)]
  exact order_evict q.capacity (e::q.seen) (q.order ++ [e])

private theorem capacity_record (q : TxidQueue) (key : String) (t : Txid) :
    (q.record key t).capacity = q.capacity := by
  rw [record]
  split <;> rfl

end TxidQueue

namespace ObservedTxids

/-- Remember pairs in order. -/
def note (o : ObservedTxids) (calls : List (String × Txid)) : ObservedTxids :=
  calls.foldl (fun o e => o.record e.1 e.2) o

/-- The pairs that are recorded, in order: those that are not remembered when they come. -/
def recorded (o : ObservedTxids) : List (String × Txid) → List (String × Txid)
  | [] => []
  | e::calls => (if o.contains e.1 e.2 then [] else [e]) ++ (o.record e.1 e.2).recorded calls

/-- The other pairs that follow the first place of a pair in a list, each of them once. -/
def newcomers (e : String × Txid) (pairs : List (String × Txid)) : List (String × Txid) :=
  ((pairs.dropWhile (· ≠ e)).filter (· ≠ e)).dedup

variable {o : ObservedTxids} {e : String × Txid}

theorem contains_iff : o.contains e.1 e.2 = true ↔ e ∈ o.entries := by
  rw [contains,o.sound.mem_iff e,entries,List.mem_reverse]

private theorem note_cons (o : ObservedTxids) (e : String × Txid) (calls : List (String × Txid)) :
    o.note (e::calls) = (o.record e.1 e.2).note calls := rfl

theorem note_append (o : ObservedTxids) (xs ys : List (String × Txid)) :
    o.note (xs ++ ys) = (o.note xs).note ys := List.foldl_append

theorem recordAll_eq_note (o : ObservedTxids) (key : String) (txids : List Txid) :
    o.recordAll key txids = o.note (txids.map fun t => (key,t)) := by
  rw [recordAll,note,List.foldl_map]

private theorem capacity_record (o : ObservedTxids) (key : String) (t : Txid) :
    (o.record key t).capacity = o.capacity := TxidQueue.capacity_record o.queue key t

private theorem capacity_note (o : ObservedTxids) (calls : List (String × Txid)) :
    (o.note calls).capacity = o.capacity := by
  induction calls generalizing o with
  | nil => rfl
  | cons c calls ih => rw [note_cons,ih,capacity_record]

private theorem record_of_mem (h : e ∈ o.entries) : o.record e.1 e.2 = o := by
  obtain ⟨q,hq⟩ := o
  have hsame : q.record e.1 e.2 = q := TxidQueue.record_of_contains (contains_iff.mpr h)
  simp only [record,hsame]

private theorem entries_record_of_not_mem (h : e ∉ o.entries) :
    (o.record e.1 e.2).entries = (e::o.entries).take o.capacity := by
  have hnew : o.queue.contains e.1 e.2 = false := by
    rw [← Bool.not_eq_true]
    exact fun hc => h (contains_iff.mp hc)
  rw [entries,record,TxidQueue.order_record hnew,TxidQueue.newest,← List.take_reverse,List.reverse_concat]
  rfl

private theorem recorded_of_mem (h : e ∈ o.entries) (calls : List (String × Txid)) :
    o.recorded (e::calls) = o.recorded calls := by
  rw [recorded,if_pos (contains_iff.mpr h),record_of_mem h,List.nil_append]

private theorem recorded_of_not_mem (h : e ∉ o.entries) (calls : List (String × Txid)) :
    o.recorded (e::calls) = e::(o.record e.1 e.2).recorded calls := by
  rw [recorded,if_neg (fun hc => h (contains_iff.mp hc)),List.singleton_append]

private theorem recorded_append (o : ObservedTxids) (xs ys : List (String × Txid)) :
    o.recorded (xs ++ ys) = o.recorded xs ++ (o.note xs).recorded ys := by
  induction xs generalizing o with
  | nil => rfl
  | cons x xs ih => simp only [List.cons_append,recorded,ih,note_cons,List.append_assoc]

private theorem mem_of_mem_recorded {calls : List (String × Txid)} (h : e ∈ o.recorded calls) : e ∈ calls := by
  induction calls generalizing o with
  | nil => exact h
  | cons c calls ih =>
    rcases List.mem_append.mp h with h | h
    · split at h
      · cases h
      · rw [List.mem_singleton.mp h]
        exact List.mem_cons_self
    · exact List.mem_cons_of_mem _ (ih h)

theorem mem_note {calls : List (String × Txid)} (h : e ∈ (o.note calls).entries) :
    e ∈ o.entries ∨ e ∈ calls := by
  induction calls generalizing o with
  | nil => exact .inl h
  | cons c calls ih =>
    rw [note_cons] at h
    rcases ih h with h | h
    · by_cases hc : c ∈ o.entries
      · rw [record_of_mem hc] at h
        exact .inl h
      · rw [entries_record_of_not_mem hc] at h
        rcases List.mem_cons.mp (List.mem_of_mem_take h) with rfl | h
        · exact .inr List.mem_cons_self
        · exact .inl h
    · exact .inr (List.mem_cons_of_mem _ h)

/-- The pairs that stand before a remembered pair were recorded after it: they are distinct, and it
stays as long as they are fewer than the pairs that are remembered. -/
theorem mem_note_of_front {calls : List (String × Txid)} (others front back : List (String × Txid))
    (ho : o.entries = front ++ e::back) (hfront : front.Nodup) (hsub : front ⊆ others)
    (hcalls : ∀ c ∈ o.recorded calls, c ≠ e → c ∈ others) (hfew : others.length < o.capacity) :
    e ∈ (o.note calls).entries := by
  induction calls generalizing o front back with
  | nil =>
    rw [note,List.foldl_nil,ho]
    exact List.mem_append_right _ List.mem_cons_self
  | cons c calls ih =>
    rw [note_cons]
    by_cases hc : c ∈ o.entries
    · rw [recorded_of_mem hc] at hcalls
      rw [record_of_mem hc]
      exact ih front back ho hfront hsub hcalls hfew
    · rw [recorded_of_not_mem hc] at hcalls
      have hrest : ∀ x ∈ (o.record c.1 c.2).recorded calls, x ≠ e → x ∈ others :=
        fun x hx => hcalls x (List.mem_cons_of_mem _ hx)
      have hne : c ≠ e := by
        rintro rfl
        exact hc (ho ▸ List.mem_append_right _ List.mem_cons_self)
      have hnew : (c::front).Nodup :=
        List.nodup_cons.mpr ⟨fun hm => hc (ho ▸ List.mem_append_left _ hm),hfront⟩
      have hnewsub : c::front ⊆ others :=
        List.cons_subset.mpr ⟨hcalls c List.mem_cons_self hne,hsub⟩
      have hlen : (c::front).length < o.capacity :=
        Nat.lt_of_le_of_lt (hnew.length_le_of_subset hnewsub) hfew
      obtain ⟨n,hn⟩ := Nat.exists_eq_add_of_lt hlen
      refine ih (c::front) (back.take n) ?_ hnew hnewsub hrest (by rw [capacity_record]; exact hfew)
      have hroom : o.capacity - (c::front).length = n + 1 := by omega
      rw [entries_record_of_not_mem hc,ho,← List.cons_append,List.take_append,
        List.take_of_length_le (Nat.le_of_lt hlen),hroom,List.take_succ_cons]

/-- A pair that has come is remembered, unless as many others have been recorded since as are
remembered. -/
theorem contains_note {capacity : Nat} {calls : List (String × Txid)} (he : e ∈ calls)
    (hfew : (newcomers e ((create capacity).recorded calls)).length < capacity) :
    ((create capacity).note calls).contains e.1 e.2 = true := by
  obtain ⟨before,rest,rfl,hbefore⟩ := List.eq_append_cons_of_mem he
  have habsent : e ∉ ((create capacity).note before).entries := by
    intro h
    rcases mem_note h with h | h
    · cases h
    · exact hbefore h
  have hdrop : ((create capacity).recorded (before ++ e::rest)).dropWhile (· ≠ e) =
      e::(((create capacity).note before).record e.1 e.2).recorded rest := by
    rw [recorded_append,recorded_of_not_mem habsent,List.dropWhile_append_of_pos,
      List.dropWhile_cons_of_neg (by simp)]
    intro c hc
    simp only [ne_eq,decide_not,Bool.not_eq_true',decide_eq_false_iff_not]
    rintro rfl
    exact hbefore (mem_of_mem_recorded hc)
  have hcapacity : ((create capacity).note before).capacity = capacity := capacity_note _ _
  have hfirst : (((create capacity).note before).record e.1 e.2).entries =
      [] ++ e::((create capacity).note before).entries.take (capacity - 1) := by
    obtain ⟨n,hn⟩ := Nat.exists_eq_add_of_lt hfew
    have hroom : capacity = capacity - 1 + 1 := by omega
    rw [entries_record_of_not_mem habsent,hcapacity,List.nil_append,hroom,List.take_succ_cons,
      Nat.add_sub_cancel]
  rw [contains_iff,note_append,note_cons]
  refine mem_note_of_front (newcomers e ((create capacity).recorded (before ++ e::rest))) [] _ hfirst
    List.nodup_nil (List.nil_subset _) ?_ ?_
  · intro c hc hne
    rw [newcomers,hdrop,List.mem_dedup,List.mem_filter]
    exact ⟨List.mem_cons_of_mem _ hc,by simpa using hne⟩
  · rw [capacity_record,hcapacity]
    exact hfew

/-! ### Pairs that fit -/

/-- Recording pairs that are remembered changes nothing. -/
theorem note_of_mem {calls : List (String × Txid)} (h : ∀ c ∈ calls, c ∈ o.entries) : o.note calls = o := by
  induction calls with
  | nil => rfl
  | cons c calls ih =>
    rw [note_cons,record_of_mem (h c List.mem_cons_self)]
    exact ih fun x hx => h x (List.mem_cons_of_mem _ hx)

/-- The pairs of a list that are not remembered, each of them once. -/
def unseen (o : ObservedTxids) (calls : List (String × Txid)) : List (String × Txid) :=
  (calls.filter fun c => !o.contains c.1 c.2).dedup

/-- Recording the pairs of a list forgets none, since those that are new fit in. -/
def Fits (o : ObservedTxids) (calls : List (String × Txid)) : Prop :=
  o.entries.length + (o.unseen calls).length ≤ o.capacity

private theorem mem_note_of_room {calls : List (String × Txid)} (room : List (String × Txid))
    (hcalls : ∀ c ∈ calls, c ∈ o.entries ∨ c ∈ room) (hroom : o.entries.length + room.length ≤ o.capacity)
    (he : e ∈ o.entries ∨ e ∈ calls) : e ∈ (o.note calls).entries := by
  induction calls generalizing o room with
  | nil => exact he.resolve_right List.not_mem_nil
  | cons c calls ih =>
    have hrest : ∀ x ∈ calls, x ∈ o.entries ∨ x ∈ room := fun x hx => hcalls x (List.mem_cons_of_mem _ hx)
    rw [note_cons]
    by_cases hc : c ∈ o.entries
    · rw [record_of_mem hc]
      refine ih room hrest hroom ?_
      rcases he with he | he
      · exact .inl he
      · rcases List.mem_cons.mp he with rfl | he
        · exact .inl hc
        · exact .inr he
    · -- The pair takes one of the free places.
      have hc' : c ∈ room := (hcalls c List.mem_cons_self).resolve_left hc
      have hlen : (room.erase c).length + 1 = room.length := List.length_erase_add_one hc'
      have hentries : (o.record c.1 c.2).entries = c::o.entries := by
        rw [entries_record_of_not_mem hc]
        exact List.take_of_length_le (by rw [List.length_cons]; omega)
      refine ih (room.erase c) ?_ ?_ ?_
      · intro x hx
        rw [hentries]
        by_cases hxc : x = c
        · exact .inl (hxc ▸ List.mem_cons_self)
        · rcases hrest x hx with h | h
          · exact .inl (List.mem_cons_of_mem _ h)
          · exact .inr ((List.mem_erase_of_ne hxc).mpr h)
      · rw [capacity_record,hentries,List.length_cons]
        omega
      · rw [hentries]
        rcases he with he | he
        · exact .inl (List.mem_cons_of_mem _ he)
        · rcases List.mem_cons.mp he with rfl | he
          · exact .inl List.mem_cons_self
          · exact .inr he

theorem mem_note_of_fits {calls : List (String × Txid)} (h : o.Fits calls) (he : e ∈ calls) :
    e ∈ (o.note calls).entries := by
  refine mem_note_of_room (o.unseen calls) ?_ h (.inr he)
  intro c hc
  by_cases hm : c ∈ o.entries
  · exact .inl hm
  · refine .inr (List.mem_dedup.mpr (List.mem_filter.mpr ⟨hc,?_⟩))
    rw [Bool.not_eq_true',← Bool.not_eq_true]
    exact fun h => hm (contains_iff.mp h)

end ObservedTxids

/-! ### The newest pairs -/

namespace TxidQueue

variable {q : TxidQueue} {e : String × Txid}

/-- Remember pairs in order. -/
def note (q : TxidQueue) (calls : List (String × Txid)) : TxidQueue :=
  calls.foldl (fun q e => q.record e.1 e.2) q

/-- The pairs that are put into the queue, in order: those that cannot be looked up when they come. -/
def inserted (q : TxidQueue) : List (String × Txid) → List (String × Txid)
  | [] => []
  | e::calls => (if q.contains e.1 e.2 then [] else [e]) ++ (q.record e.1 e.2).inserted calls

private theorem note_cons (q : TxidQueue) (e : String × Txid) (calls : List (String × Txid)) :
    q.note (e::calls) = (q.record e.1 e.2).note calls := rfl

private theorem sound_note (h : q.Sound) (calls : List (String × Txid)) : (q.note calls).Sound := by
  induction calls generalizing q with
  | nil => exact h
  | cons c calls ih => exact ih (h.record c.1 c.2)

private theorem capacity_note (q : TxidQueue) (calls : List (String × Txid)) :
    (q.note calls).capacity = q.capacity := by
  induction calls generalizing q with
  | nil => rfl
  | cons c calls ih => rw [note_cons,ih,capacity_record]

private theorem length_newest (n : Nat) (pairs : List (String × Txid)) :
    (newest n pairs).length = min n pairs.length := by
  rw [newest,List.length_drop]
  omega

private theorem newest_of_le {n : Nat} {pairs : List (String × Txid)} (h : pairs.length ≤ n) :
    newest n pairs = pairs := by
  rw [newest,Nat.sub_eq_zero_of_le h,List.drop_zero]

private theorem newest_newest_append (n : Nat) (pairs more : List (String × Txid)) :
    newest n (newest n pairs ++ more) = newest n (pairs ++ more) := by
  have hsplit : newest n pairs ++ more = (pairs ++ more).drop (pairs.length - n) := by
    rw [newest,List.drop_append_of_le_length (Nat.sub_le _ _)]
  rw [hsplit,newest,List.drop_drop,newest,List.length_drop,List.length_append]
  congr 1
  omega

/-- A pair stays among the newest as long as fewer come after it than there are places. -/
theorem mem_newest_of_fewer {n : Nat} {before after : List (String × Txid)} (h : after.length < n) :
    e ∈ newest n (before ++ e::after) := by
  rw [newest,List.drop_append_of_le_length]
  · exact List.mem_append_right _ List.mem_cons_self
  · rw [List.length_append,List.length_cons]
    omega

private theorem length_record_le (h : q.contains e.1 e.2 = false) :
    (q.record e.1 e.2).order.length ≤ (q.record e.1 e.2).capacity := by
  rw [order_record h,length_newest,capacity_record]
  exact Nat.min_le_left _ _

private theorem order_note (h : q.order.length ≤ q.capacity) (calls : List (String × Txid)) :
    (q.note calls).order = newest q.capacity (q.order ++ q.inserted calls) := by
  induction calls generalizing q with
  | nil => rw [inserted,List.append_nil,newest_of_le h]; rfl
  | cons c calls ih =>
    rw [note_cons,inserted]
    cases hc : q.contains c.1 c.2 with
    | true =>
      rw [record_of_contains hc]
      exact ih h
    | false =>
      rw [ih (length_record_le hc),order_record hc,capacity_record,newest_newest_append,List.append_assoc]
      rfl

private theorem mem_note_record (h : q.contains e.1 e.2 = false) {later : List (String × Txid)}
    (hfew : ((q.record e.1 e.2).inserted later).length < q.capacity) :
    e ∈ ((q.record e.1 e.2).note later).order := by
  rw [order_note (length_record_le h),order_record h,capacity_record,newest_newest_append,
    List.append_assoc]
  exact mem_newest_of_fewer hfew

/-- Of the pairs that were put into a memory the newest are remembered, as many as there are places, and no others.
The queue and the set never differ, and nothing stands in them twice. So a pair that is put in stays through
all that come after it until there is no place left, and a pair that is remembered may come again without effect. -/
theorem newest_remembered (capacity : Nat) (calls : List (String × Txid)) :
    let q := (create capacity).note calls
    let inserted := (create capacity).inserted calls
    let remembered := newest (min capacity inserted.length) inserted
    q.order.Nodup ∧ q.seen.Perm q.order ∧ q.order.length ≤ capacity ∧ q.order = remembered ∧
      (∀ key txid, q.contains key txid = true ↔ (key,txid) ∈ remembered) ∧
      (0 < capacity → ∀ key txid, q.contains key txid = false → ∀ later,
        ((q.record key txid).inserted later).length ≤ capacity - 1 →
          ((q.record key txid).note later).contains key txid = true) ∧
      ∀ key txid, q.contains key txid = true → q.record key txid = q := by
  intro q inserted remembered
  have hsound : q.Sound := sound_note (sound_create capacity) calls
  have hcapacity : q.capacity = capacity := capacity_note _ calls
  have horder : q.order = newest capacity inserted := order_note (Nat.zero_le _) calls
  have hremembered : remembered = newest capacity inserted := by
    have hsame : inserted.length - min capacity inserted.length = inserted.length - capacity := by omega
    exact congrArg inserted.drop hsame
  refine ⟨hsound.nodup,hsound.same,?_,horder.trans hremembered.symm,?_,?_,?_⟩
  · rw [horder,length_newest]
    exact Nat.min_le_left _ _
  · intro key txid
    rw [hremembered,← horder]
    exact hsound.mem_iff (key,txid)
  · intro hpos key txid hnew later hfew
    have hfewer : ((q.record key txid).inserted later).length < q.capacity := by omega
    exact ((sound_note (hsound.record key txid) later).mem_iff (key,txid)).mpr (mem_note_record hnew hfewer)
  · intro key txid h
    exact record_of_contains (e := (key,txid)) h

/-- Three pairs come to a memory with two places, and then the first one again, which counts as a new pair. -/
def firstAgain : List (String × Txid) := [("E1",⟨41⟩),("E2",⟨42⟩),("E1",⟨41⟩),("E1",⟨43⟩),("E1",⟨41⟩)]

theorem newest_remembered_firstAgain :
    let q := (create 2).note firstAgain
    (create 2).inserted firstAgain = [("E1",⟨41⟩),("E2",⟨42⟩),("E1",⟨43⟩),("E1",⟨41⟩)] ∧
      q.order = [("E1",⟨43⟩),("E1",⟨41⟩)] ∧ q.contains "E2" ⟨42⟩ = false ∧
      ((q.record "E2" ⟨42⟩).note [("E2",⟨42⟩),("E3",⟨44⟩)]).contains "E2" ⟨42⟩ = true ∧
      q.record "E1" ⟨43⟩ = q := by
  intro q
  have hinserted : (create 2).inserted firstAgain = [("E1",⟨41⟩),("E2",⟨42⟩),("E1",⟨43⟩),("E1",⟨41⟩)] := by
    decide
  obtain ⟨_,_,_,horder,_,hstays,hagain⟩ := newest_remembered 2 firstAgain
  rw [hinserted] at horder
  have hforgotten : q.contains "E2" ⟨42⟩ = false := by decide
  have hfew : ((q.record "E2" ⟨42⟩).inserted [("E2",⟨42⟩),("E3",⟨44⟩)]).length ≤ 2 - 1 := by decide
  exact ⟨hinserted,horder,hforgotten,hstays (by decide) "E2" ⟨42⟩ hforgotten _ hfew,
    hagain "E1" ⟨43⟩ (by decide)⟩

end TxidQueue
end FieldReplica
