import FieldReplica.Collection.Tables
import FieldReplica.Proofs.Ledger

/-!
# Runs of a desk

All that can happen at a desk, one action at a time and in any order. Direct writes to the store are not
among the actions.
-/
namespace FieldReplica

/-- What can happen at a desk. `fresh` is the key of a new row that comes without one. -/
inductive Action (R : Type) where
  | stage (fresh : String) (m : Mutation R)
  | discard (id : Nat)
  | submit (id : Nat)
  | abort (id : Nat)
  | reply (id : Nat) (answer : Except AdapterError Txid)
  | expire (id : Nat)
  | read (id : Nat) (answer : Except AdapterError (Option R))
  | advance (ms : Nat)
  | remote (cs : List (RemoteChange R))
  | snapshot (rows : List R) (resync : Bool)
  | seed (rows : List R)
  | close

/-- A feature that differs from others in its key and its state only. -/
def Entity.inState (key : String) (status : EntityStatus) : Entity := ⟨key,status,7,1,"100",[],none,none⟩

/-- A message that brings a new feature. -/
def ChangeMessage.ofFeature (key : String) (txids : List Txid) : ChangeMessage :=
  ⟨key,(Row.schema (R := Entity)).encode (.inState key .ready),⟨.insert,txids⟩⟩

/-- What holds after a run and not before it is brought about by one of the steps. -/
theorem exists_turn {σ α : Type} {step : σ → α → σ} (P : σ → Prop) {s : σ} {as : List α}
    (h : P (as.foldl step s)) :
    P s ∨ ∃ u a v, as = u ++ a::v ∧ ¬ P (u.foldl step s) ∧ P (step (u.foldl step s) a) := by
  induction as generalizing s with
  | nil => exact .inl h
  | cons a as ih =>
    rcases ih h with hp | ⟨u,b,v,rfl,hbefore,hafter⟩
    · by_cases hs : P s
      · exact .inl hs
      · exact .inr ⟨[],a,as,rfl,hs,hp⟩
    · exact .inr ⟨a::u,b,v,rfl,hbefore,hafter⟩

namespace Desk

variable {R : Type} [Row R]

/-- The desk after an action, and what the action asks for and ends. -/
def act (d : Desk R) : Action R → Desk R × List (Effect R)
  | .stage fresh m =>
    match d.stage fresh m with
    | .ok (d,_) => (d,[])
    | .error _ => (d,[])
  | .discard id => (d.discard id,[])
  | .submit id => d.submit id
  | .abort id => (d.abort id,[])
  | .reply id answer => d.reply id answer
  | .expire id => d.expire id
  | .read id answer => d.read id answer
  | .advance ms => (d.advance ms,[])
  | .remote cs => d.remote cs
  | .snapshot rows resync => d.snapshot rows resync
  | .seed rows => (d.seed rows,[])
  | .close => d.close

def step (d : Desk R) (a : Action R) : Desk R := (d.act a).1

/-- The desk after a run. -/
def after (d : Desk R) (as : List (Action R)) : Desk R := as.foldl step d

/-- What a run asks for and ends, in order. -/
def effects (d : Desk R) : List (Action R) → List (Effect R)
  | [] => []
  | a::as => (d.act a).2 ++ (d.step a).effects as

/-- Every action of a run satisfies `P` at the desk that it meets. -/
def Along (P : Desk R → Action R → Prop) (d : Desk R) : List (Action R) → Prop
  | [] => True
  | a::as => P d a ∧ (d.step a).Along P as

@[simp] theorem after_nil (d : Desk R) : d.after [] = d := rfl

theorem after_cons (d : Desk R) (a : Action R) (as : List (Action R)) :
    d.after (a::as) = (d.step a).after as := rfl

theorem after_append (d : Desk R) (as bs : List (Action R)) :
    d.after (as ++ bs) = (d.after as).after bs := List.foldl_append

theorem effects_append (d : Desk R) (as bs : List (Action R)) :
    d.effects (as ++ bs) = d.effects as ++ (d.after as).effects bs := by
  induction as generalizing d with
  | nil => rfl
  | cons a as ih => simp only [List.cons_append,effects,ih,after_cons,List.append_assoc]

theorem along_append {P : Desk R → Action R → Prop} {d : Desk R} {as bs : List (Action R)} :
    d.Along P (as ++ bs) ↔ d.Along P as ∧ (d.after as).Along P bs := by
  induction as generalizing d with
  | nil => simp [Along]
  | cons a as ih => simp only [List.cons_append,Along,ih,after_cons,and_assoc]

/-! ### What a desk shows -/

/-- The record that is pending on a key. -/
def record? (d : Desk R) (key : String) : Option (Pending R) := d.reconciler.ledger.pending.find? key

/-- The row that the store shows under a key. -/
def row? (d : Desk R) (key : String) : Option R := d.reconciler.store.get? key

/-- Whether an action ends the record that the mutation `id` has under a key. -/
def retires (d : Desk R) (a : Action R) (key : String) (id : Nat) : Bool :=
  (d.reconciler.find? key id).isSome && ((d.step a).record? key).isNone

/-! ### What actions do to the reconciler -/

theorem stage_eq_ok {d d' : Desk R} {fresh : String} {m : Mutation R} {st : Staging} :
    d.stage fresh m = .ok (d',st) → ∃ r, d.reconciler.stage fresh m = .ok (r,st) ∧
      d' = { d with
        reconciler := r
        handles := match st with
          | .staged s => d.handles ++ [s]
          | .cancelled _ => d.handles } := by
  intro h
  rw [stage] at h
  cases hs : d.reconciler.stage fresh m with
  | error e => rw [hs] at h; cases h
  | ok x =>
    rw [hs] at h
    obtain ⟨rfl,rfl⟩ := Prod.mk.inj (Except.ok.inj h)
    exact ⟨x.1,rfl,rfl⟩

omit [Row R] in
@[simp] theorem reconciler_wakeOne (d : Desk R) (c : Confirmation) :
    (d.wakeOne c).1.reconciler = d.reconciler := by
  rw [wakeOne]
  split <;> rfl

omit [Row R] in
@[simp] theorem reconciler_wake (d : Desk R) (cs : List Confirmation) :
    (d.wake cs).1.reconciler = d.reconciler := by
  induction cs generalizing d with
  | nil => rfl
  | cons c cs ih => simp only [wake,ih,reconciler_wakeOne]

theorem reconciler_remote (d : Desk R) (cs : List (RemoteChange R)) :
    (d.remote cs).1.reconciler = (d.reconciler.applyRemote cs).1 := by
  simp only [remote,reconciler_wake]

theorem reconciler_snapshot (d : Desk R) (rows : List R) (resync : Bool) :
    (d.snapshot rows resync).1.reconciler = (d.reconciler.applySnapshot rows resync).1 := by
  simp only [snapshot,reconciler_wake]

omit [Row R] in
theorem reconciler_submit (d : Desk R) (id : Nat) : (d.submit id).1.reconciler = d.reconciler ∨
    ∃ s m, d.reconciler.beginSubmit s = .ok ((d.submit id).1.reconciler,m) := by
  rw [submit]
  split
  · exact .inl rfl
  · next s _ =>
    cases h : d.reconciler.beginSubmit s with
    | error e => exact .inl (by simp [discard,h])
    | ok x =>
      obtain ⟨r,m | _⟩ := x
      · exact .inr ⟨s,.send m,by simp [discard,h,requeue,without]⟩
      · exact .inl (by simp [discard,h])

theorem reconciler_reply (d : Desk R) (id : Nat) (answer : Except AdapterError Txid) :
    (d.reply id answer).1.reconciler = d.reconciler ∨
      (∃ key e, (d.reply id answer).1.reconciler = d.reconciler.rollBack key id e) ∨
      ∃ key t b, d.reconciler.awaitTxid key id t = .ok ((d.reply id answer).1.reconciler,b) := by
  rw [reply]
  split
  · next key m signal _ =>
    cases answer with
    | error e => exact .inr (.inl ⟨key,.ofAdapter e,rfl⟩)
    | ok t =>
      cases h : d.reconciler.awaitTxid key id t with
      | error e => exact .inl (by simp [h,resolve,without])
      | ok x =>
        obtain ⟨r,_ | _⟩ := x
        · exact .inr (.inr ⟨key,t,false,by simp [h,requeue,without]⟩)
        · exact .inr (.inr ⟨key,t,true,by simp [h,resolve,without]⟩)
  · exact .inl rfl

omit [Row R] in
theorem reconciler_expire (d : Desk R) (id : Nat) : (d.expire id).1.reconciler = d.reconciler := by
  rw [expire]
  split
  · split <;> rfl
  · rfl

theorem reconciler_read (d : Desk R) (id : Nat) (answer : Except AdapterError (Option R)) :
    (d.read id answer).1.reconciler = d.reconciler ∨
      ∃ f t, d.find? id = some f ∧ f.phase = .reading t ∧ f.signal = none ∧
        (d.read id answer).1.reconciler = (d.reconciler.settle f.key id t f.mutation answer).1 := by
  rw [read]
  split
  · next _ key m t signal hf =>
    cases signal with
    | some t => exact .inl rfl
    | none => exact .inr ⟨_,t,hf,rfl,rfl,rfl⟩
  · exact .inl rfl

end Desk
end FieldReplica
