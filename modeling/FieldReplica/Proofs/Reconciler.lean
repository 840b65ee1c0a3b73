import FieldReplica.Reconciler.Basic
import FieldReplica.Proofs.Ledger
import FieldReplica.Proofs.Patch

/-!
# What each operation of the reconciler does

One statement for an operation says all that it can come to, with the conditions under which it does.
-/
namespace FieldReplica
namespace Reconciler

variable {R : Type} [Row R]

omit [Row R] in
theorem find?_eq_some {r : Reconciler R} {key : String} {id : Nat} {p : Pending R} :
    r.find? key id = some p ↔ r.ledger.pending.find? key = some p ∧ p.id = id :=
  Ledger.find?_eq_some

/-- The write that shows a mutation leaves the mutation's outcome under its key. -/
theorem entry_optimistic {m : Mutation R} {current : Option R} {w : Write R}
    (hc : FiledUnder m.key current) (h : optimistic m current = .ok w) :
    w.entry = (m.key,m.outcome? current) := by
  cases m with
  | insert row =>
    cases current with
    | none => rw [← Except.ok.inj h]; rfl
    | some s => cases h
  | delete key =>
    cases current with
    | none => cases h
    | some s => rw [← Except.ok.inj h]; rfl
  | update key changes =>
    cases current with
    | none => cases h
    | some row =>
      rw [optimistic] at h
      split at h
      · next s hs =>
        have hk : Row.key s = key := (Row.key_applyChanges hs).trans (hc row rfl)
        rw [← Except.ok.inj h]
        simp [Write.entry,Mutation.key,Mutation.outcome?,hs,hk,Except.toOption]
      · cases h

/-- Staging takes back an insertion that was not sent, or reserves a free key. -/
theorem stage_eq_ok {r r' : Reconciler R} {fresh : String} {m n : Mutation R} {st : Staging}
    (hn : withKey fresh m = n) (h : r.stage fresh m = .ok (r',st)) : r.closed = false ∧
    ((∃ p, r.ledger.pending.find? n.key = some p ∧ cancels n p = true ∧ st = .cancelled n.key ∧
        r' = r.retire n.key p.base) ∨
      ∃ w, r.ledger.pending.find? n.key = none ∧ optimistic n (r.store.get? n.key) = .ok w ∧
        st = .staged ⟨r.nextId,n.key,n.kind⟩ ∧
        r' = ({ r with
          ledger := r.ledger.put n.key ⟨r.nextId,n,.staged,r.store.get? n.key⟩
          nextId := r.nextId + 1 }).write [w]) := by
  subst hn
  rw [stage] at h
  split at h
  · cases h
  dsimp only at h
  split at h
  · cases h
  · next hc =>
    refine ⟨by simpa using hc,?_⟩
    split at h
    · next p hp =>
      split at h
      · next hcancel =>
        obtain ⟨rfl,rfl⟩ := Prod.mk.inj (Except.ok.inj h)
        exact .inl ⟨p,hp,hcancel,rfl,rfl⟩
      · cases h
    · next hp =>
      split at h
      · cases h
      · next w hw =>
        obtain ⟨rfl,rfl⟩ := Prod.mk.inj (Except.ok.inj h)
        exact .inr ⟨w,hp,hw,rfl,rfl⟩

omit [Row R] in
/-- Beginning to send marks the record as sent; without the record nothing happens. -/
theorem beginSubmit_eq_ok {r r' : Reconciler R} {s : Staged} {x : Sending R}
    (h : r.beginSubmit s = .ok (r',x)) :
    (∃ p, r.ledger.pending.find? s.key = some p ∧ p.id = s.id ∧ x = .send p.mutation ∧
      r' = { r with ledger := r.ledger.put s.key { p with progress := .submitted } }) ∨
    (r.find? s.key s.id = none ∧ r.closed = false ∧ x = .cancelled ∧ r' = r) := by
  rw [beginSubmit] at h
  split at h
  · next p hp =>
    obtain ⟨rfl,rfl⟩ := Prod.mk.inj (Except.ok.inj h)
    obtain ⟨hp,hid⟩ := find?_eq_some.mp hp
    exact .inl ⟨p,hp,hid,rfl,rfl⟩
  · next hp =>
    split at h
    · cases h
    · next hc =>
      obtain ⟨rfl,rfl⟩ := Prod.mk.inj (Except.ok.inj h)
      exact .inr ⟨hp,by simpa using hc,rfl,rfl⟩

/-- The answer of the server confirms a mutation whose transaction was seen, and has another one wait. -/
theorem awaitTxid_eq_ok {r r' : Reconciler R} {key : String} {id : Nat} {t : Txid} {b : Bool}
    (h : r.awaitTxid key id t = .ok (r',b)) :
    ∃ p, r.ledger.pending.find? key = some p ∧ p.id = id ∧ b = r.ledger.observed.contains key t ∧
      r' = if r.ledger.observed.contains key t then (r.retire key p.base).notify (.confirmed key t)
        else { r with ledger := r.ledger.put key { p with progress := .awaiting t } } := by
  rw [awaitTxid] at h
  split at h
  · cases h
  · next p hp =>
    obtain ⟨hp,hid⟩ := find?_eq_some.mp hp
    refine ⟨p,hp,hid,?_⟩
    split at h
    · next hb =>
      obtain ⟨rfl,rfl⟩ := Prod.mk.inj (Except.ok.inj h)
      exact ⟨hb.symm,by rw [if_pos hb]⟩
    · next hb =>
      obtain ⟨rfl,rfl⟩ := Prod.mk.inj (Except.ok.inj h)
      exact ⟨by simpa using hb,by rw [if_neg hb]⟩

theorem awaitTxid_of_some {r : Reconciler R} {key : String} {id : Nat} {p : Pending R}
    (h : r.find? key id = some p) (t : Txid) : r.awaitTxid key id t =
      if r.ledger.observed.contains key t then
        .ok ((r.retire key p.base).notify (.confirmed key t),true)
      else .ok ({ r with ledger := r.ledger.put key { p with progress := .awaiting t } },false) := by
  rw [awaitTxid,h]

theorem rollBack_of_some {r : Reconciler R} {key : String} {id : Nat} {p : Pending R}
    (h : r.find? key id = some p) (e : MutationError) :
    r.rollBack key id e = (r.retire key p.base).notify (.rolledBack key e.message) := by
  rw [rollBack,h]

theorem rollBack_of_none {r : Reconciler R} {key : String} {id : Nat} (h : r.find? key id = none)
    (e : MutationError) : r.rollBack key id e = r := by
  rw [rollBack,h]

/-- The value that a read leaves under the key of a record: the row that it found, or the last value
that the server gave if the read failed. -/
def settledValue (p : Pending R) : Except AdapterError (Option R) → Option R
  | .ok server => server
  | .error _ => p.base

/-- What is reported of a read: the mutation is confirmed if the row shows it, and lost otherwise. -/
def verdict (key : String) (t : Txid) (m : Mutation R) :
    Except AdapterError (Option R) → Except MutationError Outcome
  | .ok server => if m.isReflectedBy server then .ok (.confirmed key t) else .error (.lost key t)
  | .error _ => .error (.lost key t)

def Verdict.event (key : String) (t : Txid) : Except MutationError Outcome → Event R
  | .ok _ => .confirmed key t
  | .error e => .rolledBack key e.message

theorem settle_of_none {r : Reconciler R} {key : String} {id : Nat} (h : r.find? key id = none)
    (t : Txid) (m : Mutation R) (answer : Except AdapterError (Option R)) :
    r.settle key id t m answer = (r,.error .closed) := by
  rw [settle,h]

theorem settle_of_some {r : Reconciler R} {key : String} {id : Nat} {p : Pending R}
    (h : r.find? key id = some p) (t : Txid) (m : Mutation R)
    (answer : Except AdapterError (Option R)) :
    r.settle key id t m answer = ((r.retire key (settledValue p answer)).notify
      (Verdict.event key t (verdict key t m answer)),verdict key t m answer) := by
  rw [settle,h]
  cases answer with
  | error e => rfl
  | ok server =>
    simp only [settledValue,verdict]
    split <;> rfl

end Reconciler
end FieldReplica
