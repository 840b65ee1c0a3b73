import FieldReplica.Proofs.Image
import FieldReplica.Proofs.Reconciler
import FieldReplica.Proofs.Run

/-!
# Verdicts

The events that say what became of a mutation. There is one when the record of the mutation goes by the
server's word, and none otherwise.
-/
namespace FieldReplica

variable {R : Type} [Row R]

omit [Row R] in
/-- Whether an event is the word on a mutation of a key. -/
def Event.isVerdict (key : String) : Event R → Bool
  | .confirmed k _ | .rolledBack k _ => k = key
  | .changed _ | .reconnecting _ _ _ | .resynced _ | .subscriptionFailed _ => false

namespace Reconciler

/-- The verdicts on a key so far. -/
def verdicts (r : Reconciler R) (key : String) : List (Event R) :=
  r.store.channel.log.filter (·.isVerdict key)

theorem verdicts_write (r : Reconciler R) (ws : List (Write R)) (key : String) :
    (r.write ws).verdicts key = r.verdicts key := by
  have hnew : ((Write.changes r.store.rows ws).map Event.changed).filter (·.isVerdict key) = [] := by
    rw [List.filter_eq_nil_iff]
    intro e he
    obtain ⟨c,_,rfl⟩ := List.mem_map.mp he
    exact Bool.false_ne_true
  change (r.store.channel.log ++ _).filter _ = _
  rw [List.filter_append,hnew,List.append_nil]
  rfl

omit [Row R] in
theorem verdicts_notify (r : Reconciler R) (e : Event R) (key : String) :
    (r.notify e).verdicts key = r.verdicts key ++ [e].filter (·.isVerdict key) :=
  List.filter_append _ _

omit [Row R] in
private theorem verdicts_announce (r : Reconciler R) (cs : List Confirmation) (key : String) :
    (r.announce cs).verdicts key = r.verdicts key ++
      (cs.filter (·.key = key)).map fun c => .confirmed c.key c.txid := by
  change (r.store.channel.log ++ _).filter _ = _
  rw [List.filter_append,List.filter_map]
  rfl

theorem verdicts_retire (r : Reconciler R) (key : String) (v : Option R) (k : String) :
    (r.retire key v).verdicts k = r.verdicts k :=
  verdicts_write _ _ _

theorem verdicts_applyRemote (r : Reconciler R) (cs : List (RemoteChange R)) (key : String) :
    (r.applyRemote cs).1.verdicts key = r.verdicts key ++
      ((r.ledger.receiveAll cs).confirmed.filter (·.key = key)).map fun c => .confirmed c.key c.txid := by
  rw [applyRemote]
  dsimp only
  rw [verdicts_announce,verdicts_write]
  rfl

theorem verdicts_applySnapshot (r : Reconciler R) (rows : List R) (resync : Bool) (key : String) :
    (r.applySnapshot rows resync).1.verdicts key = r.verdicts key ++
      ((r.ledger.reflectedBy (imageOf rows)).filter (·.key = key)).map
        fun c => .confirmed c.key c.txid := by
  rw [applySnapshot]
  dsimp only
  rw [verdicts_announce]
  congr 1
  split
  · rw [verdicts_notify,verdicts_write]
    exact List.append_nil _
  · exact verdicts_write _ _ _

omit [Row R] in
theorem isVerdict_event {k key : String} {t : Txid} {x : Except MutationError Outcome} :
    (Verdict.event k t x : Event R).isVerdict key = decide (k = key) := by
  cases x <;> rfl

/-- What is added to the verdicts on a key, if anything is added, goes with the record of the key. -/
def Rules (key : String) (r r' : Reconciler R) : Prop :=
  ∃ new, r'.verdicts key = r.verdicts key ++ new ∧ (new = [] ∨ r'.ledger.pending.find? key = none)

variable {r r' : Reconciler R} {key : String}

omit [Row R] in
private theorem rules_of_eq (h : r'.verdicts key = r.verdicts key) : Rules key r r' :=
  ⟨[],by rw [h,List.append_nil],.inl rfl⟩

private theorem rules_retire_notify (r : Reconciler R) (k : String) (v : Option R) {e : Event R}
    (he : ∀ key, e.isVerdict key = decide (k = key)) (key : String) :
    Rules key r ((r.retire k v).notify e) := by
  refine ⟨[e].filter (·.isVerdict key),by rw [verdicts_notify,verdicts_retire],?_⟩
  by_cases hk : k = key
  · subst hk
    exact .inr (Table.find?_erase_self _ _)
  · left
    simp [he,hk]

private theorem rules_rollBack (r : Reconciler R) (k : String) (id : Nat) (e : MutationError) (key : String) :
    Rules key r (r.rollBack k id e) := by
  cases hp : r.find? k id with
  | none => rw [rollBack_of_none hp]; exact rules_of_eq rfl
  | some p =>
    rw [rollBack_of_some hp]
    exact rules_retire_notify r k _ (fun _ => rfl) key

private theorem rules_awaitTxid {k : String} {id : Nat} {t : Txid} {b : Bool}
    (h : r.awaitTxid k id t = .ok (r',b)) : Rules key r r' := by
  obtain ⟨p,_,_,_,rfl⟩ := awaitTxid_eq_ok h
  split
  · exact rules_retire_notify r k _ (fun _ => rfl) key
  · exact rules_of_eq rfl

private theorem rules_settle (r : Reconciler R) (k : String) (id : Nat) (t : Txid) (m : Mutation R)
    (answer : Except AdapterError (Option R)) (key : String) :
    Rules key r (r.settle k id t m answer).1 := by
  cases hp : r.find? k id with
  | none => rw [settle_of_none hp]; exact rules_of_eq rfl
  | some p =>
    rw [settle_of_some hp]
    exact rules_retire_notify r k _ (fun _ => isVerdict_event) key

private theorem rules_applyRemote (r : Reconciler R) (cs : List (RemoteChange R)) (key : String) :
    Rules key r (r.applyRemote cs).1 := by
  refine ⟨_,verdicts_applyRemote r cs key,?_⟩
  cases hp : r.ledger.pending.find? key with
  | none =>
    rw [(Ledger.receiveAll_of_absent hp cs).2]
    exact .inl rfl
  | some p =>
    rcases Ledger.receiveAll_of_present hp cs with ⟨t,_,_,hn,_⟩ | ⟨_,_,hconf⟩
    · exact .inr hn
    · rw [hconf]
      exact .inl rfl

private theorem rules_applySnapshot (r : Reconciler R) (rows : List R) (resync : Bool) (key : String) :
    Rules key r (r.applySnapshot rows resync).1 := by
  refine ⟨_,verdicts_applySnapshot r rows resync key,?_⟩
  rw [ledger_applySnapshot,List.map_eq_nil_iff,List.filter_eq_nil_iff]
  by_cases h : ∃ c ∈ r.ledger.reflectedBy (imageOf rows), c.key = key
  · obtain ⟨c,hc,rfl⟩ := h
    obtain ⟨p,hp,_,ht⟩ := Ledger.mem_reflectedBy.mp hc
    right
    rw [Ledger.find?_rebase,hp,Option.bind_some,Pending.afterImage,ht]
    rfl
  · left
    intro c hc hk
    exact h ⟨c,hc,of_decide_eq_true hk⟩

end Reconciler

namespace Desk

/-- There is a verdict on a key only if its record goes. -/
theorem rules_step (d : Desk R) (a : Action R) (key : String) :
    Reconciler.Rules key d.reconciler (d.step a).reconciler := by
  cases a with
  | stage fresh m =>
    cases hs : d.stage fresh m with
    | error e => simp only [step,act,hs]; exact Reconciler.rules_of_eq rfl
    | ok x =>
      obtain ⟨d',st⟩ := x
      obtain ⟨r,hr,rfl⟩ := stage_eq_ok hs
      simp only [step,act,hs]
      obtain ⟨_,⟨p,_,_,_,rfl⟩ | ⟨w,_,_,_,rfl⟩⟩ := Reconciler.stage_eq_ok rfl hr <;>
        exact Reconciler.rules_of_eq (Reconciler.verdicts_write _ _ _)
  | discard id | abort id | advance ms | close => exact Reconciler.rules_of_eq rfl
  | submit id =>
    rcases reconciler_submit d id with hr | ⟨s,m,hr⟩
    · exact Reconciler.rules_of_eq (congrArg (·.verdicts key) hr)
    · rcases Reconciler.beginSubmit_eq_ok hr with ⟨p,_,_,_,hr⟩ | ⟨_,_,_,hr⟩ <;>
        exact Reconciler.rules_of_eq (congrArg (·.verdicts key) hr)
  | reply id answer =>
    rcases reconciler_reply d id answer with hr | ⟨k,e,hr⟩ | ⟨k,t,b,hr⟩
    · exact Reconciler.rules_of_eq (congrArg (·.verdicts key) hr)
    · exact hr ▸ Reconciler.rules_rollBack d.reconciler k id e key
    · exact Reconciler.rules_awaitTxid hr
  | expire id => exact Reconciler.rules_of_eq (congrArg (·.verdicts key) (reconciler_expire d id))
  | read id answer =>
    rcases reconciler_read d id answer with hr | ⟨f,t,_,_,_,hr⟩
    · exact Reconciler.rules_of_eq (congrArg (·.verdicts key) hr)
    · exact hr ▸ Reconciler.rules_settle d.reconciler f.key id t f.mutation answer key
  | remote cs => exact reconciler_remote d cs ▸ Reconciler.rules_applyRemote d.reconciler cs key
  | snapshot rows resync =>
    exact reconciler_snapshot d rows resync ▸ Reconciler.rules_applySnapshot d.reconciler rows resync key
  | seed rows => exact Reconciler.rules_of_eq (Reconciler.verdicts_write _ _ _)

/-- What an action adds to the verdicts on a key. -/
def ruling (d : Desk R) (a : Action R) (key : String) : List (Event R) :=
  ((d.step a).reconciler.verdicts key).drop (d.reconciler.verdicts key).length

theorem ruling_eq {d : Desk R} {a : Action R} {key : String} {new : List (Event R)}
    (h : (d.step a).reconciler.verdicts key = d.reconciler.verdicts key ++ new) :
    d.ruling a key = new := by
  rw [ruling,h,List.drop_left]

theorem ruling_of_record {d : Desk R} {a : Action R} {key : String}
    (h : ((d.step a).record? key).isSome) : d.ruling a key = [] := by
  obtain ⟨new,hnew,rfl | hn⟩ := rules_step d a key
  · exact ruling_eq hnew
  · rw [record?,hn] at h
    cases h

/-- The verdicts on a mutation: those on its key while its record is there. -/
def verdictsOn (d : Desk R) (key : String) (id : Nat) : List (Action R) → List (Event R)
  | [] => []
  | a::as =>
    (if (d.reconciler.find? key id).isSome then d.ruling a key else []) ++
      (d.step a).verdictsOn key id as

theorem verdictsOn_append (d : Desk R) (key : String) (id : Nat) (as bs : List (Action R)) :
    d.verdictsOn key id (as ++ bs) = d.verdictsOn key id as ++ (d.after as).verdictsOn key id bs := by
  induction as generalizing d with
  | nil => rfl
  | cons a as ih => simp only [List.cons_append,verdictsOn,ih,after_cons,List.append_assoc]

end Desk
end FieldReplica
