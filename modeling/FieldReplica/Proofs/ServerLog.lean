import FieldReplica.Subscription.Basic
import FieldReplica.Proofs.Store

/-!
# The server's log of a shape

A log is a list of change records with strictly ascending offsets, complete up to some offset. It grows
at its end only, beyond the offset up to which it was complete.
-/
namespace FieldReplica

namespace LogOffset

/-- The place of an offset among all offsets. -/
def rank : LogOffset → Nat
  | .beforeStart => 0
  | .at tx op => tx.toNat * UInt64.size + op.toNat + 1

private theorem compareWords (a b : UInt64) : (a.toNat < b.toNat ∧ Ord.compare a b = .lt) ∨
    (a.toNat = b.toNat ∧ Ord.compare a b = .eq) ∨ (b.toNat < a.toNat ∧ Ord.compare a b = .gt) := by
  change _ ∧ compareOfLessAndEq a b = _ ∨ _ ∧ compareOfLessAndEq a b = _ ∨ _ ∧ compareOfLessAndEq a b = _
  rw [compareOfLessAndEq]
  split
  · next h => exact .inl ⟨UInt64.lt_iff_toNat_lt.mp h,rfl⟩
  · next h =>
    have hle := Nat.not_lt.mp (fun hlt => h (UInt64.lt_iff_toNat_lt.mpr hlt))
    split
    · next he => exact .inr (.inl ⟨congrArg UInt64.toNat he,rfl⟩)
    · next he =>
      have hne : a.toNat ≠ b.toNat := fun hh => he (UInt64.toNat_inj.mp hh)
      exact .inr (.inr ⟨by omega,rfl⟩)

theorem le_iff (a b : LogOffset) : a.le b = true ↔ a.rank ≤ b.rank := by
  rw [le,decide_eq_true_iff]
  cases a with
  | beforeStart => cases b <;> simp [compare,rank]
  | «at» tx op =>
    cases b with
    | beforeStart => simp [compare,rank]
    | «at» tx' op' =>
      have ho := op.toNat_lt_size
      have ho' := op'.toNat_lt_size
      rw [compare,rank,rank]
      -- The size of a word stays an atom here: only that both operation offsets are below it matters.
      generalize UInt64.size = n at ho ho' ⊢
      rcases compareWords tx tx' with ⟨h,hc⟩ | ⟨h,hc⟩ | ⟨h,hc⟩
      · have hm := Nat.mul_le_mul_right n (Nat.succ_le_of_lt h)
        rw [Nat.succ_mul] at hm
        generalize tx.toNat * n = x at hm ⊢
        generalize tx'.toNat * n = x' at hm ⊢
        simp only [hc,Ordering.then,ne_eq,reduceCtorEq,not_false_eq_true,true_iff]
        omega
      · rw [hc,h,Ordering.then]
        generalize tx'.toNat * n = x
        rcases compareWords op op' with ⟨h,hc⟩ | ⟨h,hc⟩ | ⟨h,hc⟩ <;> simp [hc] <;> omega
      · have hm := Nat.mul_le_mul_right n (Nat.succ_le_of_lt h)
        rw [Nat.succ_mul] at hm
        generalize tx.toNat * n = x at hm ⊢
        generalize tx'.toNat * n = x' at hm ⊢
        simp only [hc,Ordering.then,ne_eq,not_true_eq_false,false_iff]
        omega

theorem le_refl (a : LogOffset) : a.le a = true := (le_iff a a).mpr (Nat.le_refl _)

theorem le_eq_false_iff (a b : LogOffset) : a.le b = false ↔ b.rank < a.rank := by
  rw [← Bool.not_eq_true,le_iff,Nat.not_le]

end LogOffset

/-- A change as it stands in a log. -/
structure LogRecord where
  tx : UInt64
  op : UInt64
  message : ChangeMessage

def LogRecord.offset (r : LogRecord) : LogOffset := .at r.tx r.op

/-- The log of a shape. -/
structure ShapeLog where
  records : List LogRecord
  /-- The offset up to which the log is complete. -/
  reach : LogOffset
  ascending : records.Pairwise fun a b => b.offset.le a.offset = false
  within : ∀ r ∈ records, r.offset.le reach

namespace ShapeLog

/-- The records up to an offset. -/
def upTo (l : ShapeLog) (o : LogOffset) : List LogRecord := l.records.filter (·.offset.le o)

/-- The records after one offset, up to another one. -/
def between (l : ShapeLog) (a b : LogOffset) : List LogRecord :=
  l.records.filter fun r => !r.offset.le a && r.offset.le b

/-- A log later on: records have been added beyond the offset up to which it was complete. -/
def Extends (l' l : ShapeLog) : Prop :=
  l.reach.le l'.reach ∧ ∃ more, l'.records = l.records ++ more ∧ ∀ r ∈ more, r.offset.le l.reach = false

theorem extends_refl (l : ShapeLog) : l.Extends l :=
  ⟨LogOffset.le_refl _,[],(List.append_nil _).symm,nofun⟩

theorem between_of_le (l : ShapeLog) {a b : LogOffset} (h : b.le a) : l.between a b = [] := by
  rw [between,List.filter_eq_nil_iff]
  intro r _ hr
  simp only [Bool.and_eq_true,Bool.not_eq_true',LogOffset.le_eq_false_iff,LogOffset.le_iff] at hr h
  omega

theorem between_beforeStart (l : ShapeLog) (a : LogOffset) : l.between a .beforeStart = [] := by
  rw [between,List.filter_eq_nil_iff]
  intro r _ hr
  simp only [Bool.and_eq_true,LogOffset.le_iff,LogOffset.rank,LogRecord.offset] at hr
  omega

theorem upTo_beforeStart (l : ShapeLog) : l.upTo .beforeStart = [] := by
  rw [upTo,List.filter_eq_nil_iff]
  intro r _ hr
  simp only [LogOffset.le_iff,LogOffset.rank,LogRecord.offset] at hr
  omega

private theorem filter_split {l : List LogRecord} (h : l.Pairwise fun a b => b.offset.le a.offset = false)
    {a b : LogOffset} (hab : a.le b) : l.filter (·.offset.le b) =
      l.filter (·.offset.le a) ++ l.filter fun r => !r.offset.le a && r.offset.le b := by
  induction l with
  | nil => rfl
  | cons r l ih =>
    obtain ⟨hr,hl⟩ := List.pairwise_cons.mp h
    rw [LogOffset.le_iff] at hab
    by_cases hra : r.offset.le a = true
    · have hrb : r.offset.le b = true := by rw [LogOffset.le_iff] at hra ⊢; omega
      simp only [List.filter_cons,hra,hrb,if_true,Bool.not_true,Bool.false_and,Bool.false_eq_true,
        if_false,List.cons_append,ih hl]
    · -- Everything after the first record beyond `a` lies beyond `a` as well.
      rw [Bool.not_eq_true] at hra
      have hnone : (r::l).filter (·.offset.le a) = [] := by
        rw [List.filter_eq_nil_iff]
        intro s hs hsa
        rcases List.mem_cons.mp hs with rfl | hs
        · rw [hra] at hsa; cases hsa
        · have := hr s hs
          rw [LogOffset.le_eq_false_iff] at this hra
          rw [LogOffset.le_iff] at hsa
          omega
      rw [hnone,List.nil_append]
      apply List.filter_congr
      intro s hs
      have hsa := List.filter_eq_nil_iff.mp hnone s hs
      simp only [Bool.not_eq_true] at hsa
      rw [hsa,Bool.not_false,Bool.true_and]

/-- What has been received up to one offset, and then the batch up to the next one. -/
theorem upTo_later (l : ShapeLog) (a b : LogOffset) :
    l.upTo (Subscription.later a b) = l.upTo a ++ l.between a b := by
  rw [Subscription.later]
  split
  · next h => exact filter_split l.ascending h
  · next h =>
    rw [Bool.not_eq_true,LogOffset.le_eq_false_iff] at h
    rw [between_of_le l ((LogOffset.le_iff b a).mpr (Nat.le_of_lt h)),List.append_nil]

theorem upTo_extends {l l' : ShapeLog} (h : l'.Extends l) {o : LogOffset} (ho : o.le l.reach) :
    l'.upTo o = l.upTo o := by
  obtain ⟨_,more,hl,hm⟩ := h
  rw [upTo,hl,List.filter_append,upTo]
  have hn : more.filter (·.offset.le o) = [] := by
    rw [List.filter_eq_nil_iff]
    intro r hr hro
    have := hm r hr
    rw [LogOffset.le_eq_false_iff] at this
    rw [LogOffset.le_iff] at hro ho
    omega
  rw [hn,List.append_nil]

end ShapeLog

/-! ### Replaying a log -/

section
variable {R : Type} [Row R]

/-- The rows after a record. A record whose value is no row, or a row of another key, is passed over. -/
def LogRecord.play (rows : Table String R) (r : LogRecord) : Table String R :=
  match r.message.headers.operation with
  | .delete => rows.erase r.message.key
  | .insert | .update =>
    match (Row.decode : Decoder R).ofJson r.message.value with
    | .ok row => if Row.key row = r.message.key then rows.insert r.message.key row else rows
    | .error _ => rows

/-- The rows that a list of records makes. -/
def replay (records : List LogRecord) : Table String R := records.foldl LogRecord.play .empty

private theorem filed_play {rows : Table String R} (h : ∀ k, FiledUnder k (rows.find? k)) (r : LogRecord)
    (k : String) : FiledUnder k ((r.play rows).find? k) := by
  have herase : FiledUnder k ((rows.erase r.message.key).find? k) := by
    rw [Table.find?_erase_of]
    split
    · exact filedUnder_none k
    · exact h k
  rw [LogRecord.play]
  split
  · exact herase
  all_goals
    split
    · split
      · next row _ hk =>
        rw [Table.find?_insert_of]
        split
        · next hk' => exact filedUnder_some (hk.trans hk'.symm)
        · exact h k
      · exact h k
    · exact h k

theorem filed_replay (records : List LogRecord) (k : String) :
    FiledUnder k ((replay records : Table String R).find? k) := by
  have hfold : ∀ rows : Table String R, (∀ k, FiledUnder k (rows.find? k)) →
      ∀ k, FiledUnder k ((records.foldl LogRecord.play rows).find? k) := by
    induction records with
    | nil => exact fun rows h => h
    | cons r rs ih => exact fun rows h => ih (r.play rows) (filed_play h r)
  exact hfold .empty (fun k => filedUnder_none k) k

theorem replay_append (xs ys : List LogRecord) :
    (replay (xs ++ ys) : Table String R) = ys.foldl LogRecord.play (replay xs) := List.foldl_append

end
end FieldReplica
