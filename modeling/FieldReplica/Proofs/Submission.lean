import FieldReplica.Proofs.Image
import FieldReplica.Proofs.Reconciler
import FieldReplica.Proofs.Run

/-!
# The way of one submission

What a desk shows of one mutation: the holder of it before it is submitted, the submission while it is
under way, and the record in the ledger. Actions on other mutations leave these alone.
-/
namespace FieldReplica

variable {R : Type}

namespace Reconciler

/-- How far the mutation `id` of a key has come; none if it has no record there. -/
def progress? (r : Reconciler R) (key : String) (id : Nat) : Option Progress :=
  (r.find? key id).map (·.progress)

variable {r r' : Reconciler R} {key : String} {id : Nat}

theorem progress?_eq_some {g : Progress} : r.progress? key id = some g ↔
    ∃ p, r.ledger.pending.find? key = some p ∧ p.id = id ∧ p.progress = g := by
  rw [progress?,Option.map_eq_some_iff]
  constructor
  · rintro ⟨p,hp,hg⟩
    obtain ⟨hp,hid⟩ := find?_eq_some.mp hp
    exact ⟨p,hp,hid,hg⟩
  · rintro ⟨p,hp,hid,hg⟩
    exact ⟨p,find?_eq_some.mpr ⟨hp,hid⟩,hg⟩

theorem progress?_of_some {p : Pending R} (hp : r.ledger.pending.find? key = some p) (id : Nat) :
    r.progress? key id = if p.id = id then some p.progress else none := by
  rw [progress?,find?,Ledger.find?,hp]
  by_cases h : p.id = id <;> simp [Option.filter,h]

theorem progress?_ne_none {p : Pending R} (hp : r.ledger.pending.find? key = some p) {id : Nat}
    (hid : p.id = id) : r.progress? key id ≠ none := by
  rw [progress?_of_some hp,if_pos hid]
  exact Option.some_ne_none _

theorem progress?_of_none (hp : r.ledger.pending.find? key = none) (id : Nat) :
    r.progress? key id = none := by
  rw [progress?,find?,Ledger.find?,hp]
  rfl

theorem progress?_congr (h : r'.ledger.pending.find? key = r.ledger.pending.find? key) (id : Nat) :
    r'.progress? key id = r.progress? key id := by
  rw [progress?,progress?,find?,find?,Ledger.find?,Ledger.find?,h]

/-- A change of the reconciler that makes no new record, and leaves all mutations but one as far as they
are. -/
structure Spares (id : Nat) (r r' : Reconciler R) : Prop where
  next : r'.nextId = r.nextId
  others : ∀ key i, i ≠ id → r'.progress? key i = r.progress? key i
  recedes : ∀ key i, r.progress? key i = none → r'.progress? key i = none

theorem Spares.refl (r : Reconciler R) (id : Nat) : Spares id r r :=
  ⟨rfl,fun _ _ _ => rfl,fun _ _ h => h⟩

theorem Spares.notify (h : Spares id r r') (e : Event R) : Spares id r (r'.notify e) :=
  ⟨h.next,h.others,h.recedes⟩

/-- A change at the key of a mutation's record, which leaves no other record there. -/
theorem spares_of_key {p : Pending R} (hp : r.ledger.pending.find? key = some p)
    (hnext : r'.nextId = r.nextId)
    (hne : ∀ k, k ≠ key → r'.ledger.pending.find? k = r.ledger.pending.find? k)
    (hkey : ∀ q, r'.ledger.pending.find? key = some q → q.id = p.id) : Spares p.id r r' := by
  have hat : ∀ i, p.id ≠ i → r'.progress? key i = none := by
    intro i hi
    cases hq : r'.ledger.pending.find? key with
    | none => exact progress?_of_none hq i
    | some q => rw [progress?_of_some hq,hkey q hq,if_neg hi]
  refine ⟨hnext,fun k i hi => ?_,fun k i h => ?_⟩
  · by_cases hk : k = key
    · rw [hk,progress?_of_some hp,if_neg (Ne.symm hi),hat i (Ne.symm hi)]
    · exact progress?_congr (hne k hk) i
  · by_cases hk : k = key
    · subst hk
      refine hat i fun hi => ?_
      rw [progress?_of_some hp,if_pos hi] at h
      cases h
    · rw [progress?_congr (hne k hk),h]

theorem spares_put {p q : Pending R} (hp : r.ledger.pending.find? key = some p) (hq : q.id = p.id) :
    Spares p.id r { r with ledger := r.ledger.put key q } := by
  refine spares_of_key hp rfl (fun k hk => Table.find?_insert_ne _ _ hk) fun x hx => ?_
  rw [Ledger.put,Table.find?_insert_self] at hx
  rw [← Option.some.inj hx,hq]

theorem spares_beginSubmit {s : Staged} {x : Sending R} (h : r.beginSubmit s = .ok (r',x)) :
    Spares s.id r r' := by
  rcases beginSubmit_eq_ok h with ⟨p,hp,hid,_,rfl⟩ | ⟨_,_,_,rfl⟩
  · rw [← hid]
    exact spares_put hp rfl
  · exact .refl _ _

variable [Row R]

theorem spares_retire {p : Pending R} (hp : r.ledger.pending.find? key = some p) (v : Option R) :
    Spares p.id r (r.retire key v) := by
  refine spares_of_key hp rfl (fun k hk => Table.find?_erase_ne _ hk) fun q hq => ?_
  have hn : (r.retire key v).ledger.pending.find? key = none := Table.find?_erase_self _ _
  rw [hn] at hq
  cases hq

theorem spares_rollBack (r : Reconciler R) (key : String) (id : Nat) (e : MutationError) :
    Spares id r (r.rollBack key id e) := by
  cases hp : r.find? key id with
  | none => rw [rollBack_of_none hp]; exact .refl _ _
  | some p =>
    obtain ⟨hr,rfl⟩ := find?_eq_some.mp hp
    rw [rollBack_of_some hp]
    exact (spares_retire hr _).notify _

theorem spares_awaitTxid {t : Txid} {b : Bool} (h : r.awaitTxid key id t = .ok (r',b)) :
    Spares id r r' := by
  obtain ⟨p,hp,rfl,_,rfl⟩ := awaitTxid_eq_ok h
  split
  · exact (spares_retire hp _).notify _
  · exact spares_put hp rfl

theorem spares_settle (r : Reconciler R) (key : String) (id : Nat) (t : Txid) (m : Mutation R)
    (answer : Except AdapterError (Option R)) : Spares id r (r.settle key id t m answer).1 := by
  cases hp : r.find? key id with
  | none => rw [settle_of_none hp]; exact .refl _ _
  | some p =>
    obtain ⟨hr,rfl⟩ := find?_eq_some.mp hp
    rw [settle_of_some hp]
    exact (spares_retire hr _).notify _

end Reconciler

/-- How the submissions of one mutation end in some effects. -/
def results (id : Nat) (es : List (Effect R)) : List (Except MutationError Outcome) :=
  es.filterMap fun
    | .resolved i x => if i = id then some x else none
    | .submit _ | .fetchRow _ => none

theorem results_append (id : Nat) (es fs : List (Effect R)) :
    results id (es ++ fs) = results id es ++ results id fs := List.filterMap_append

theorem results_resolved (id i : Nat) (x : Except MutationError Outcome) :
    results id ([.resolved i x] : List (Effect R)) = if i = id then [x] else [] := by
  by_cases h : i = id <;> simp [results,h]

/-- The mutation that an action is about. -/
def Action.subject? : Action R → Option Nat
  | .discard id | .submit id | .abort id | .reply id _ | .expire id | .read id _ => some id
  | _ => none

namespace Desk

variable {d d' : Desk R} {id : Nat}

theorem id_of_find? {f : Flight R} (h : d.find? id = some f) : f.id = id := by
  simpa using List.find?_some h

theorem find?_without (d : Desk R) (i id : Nat) :
    (d.without i).find? id = if id = i then none else d.find? id := by
  rw [find?,without,List.find?_filter,find?]
  split
  · next h =>
    rw [List.find?_eq_none]
    intro f _
    simp [h]
  · next h =>
    congr 1
    funext f
    by_cases hf : f.id = id <;> simp [hf,h]

theorem find?_requeue (d : Desk R) (f : Flight R) (id : Nat) :
    (d.requeue f).find? id = if id = f.id then some f else d.find? id := by
  have happend : (d.requeue f).find? id =
      ((d.without f.id).find? id).or ([f].find? (·.id = id)) := List.find?_append
  rw [happend,find?_without]
  split
  · next h => simp [h]
  · next h =>
    have hf : [f].find? (·.id = id) = none := by simp [Ne.symm h]
    rw [hf,Option.or_none]

/-- A change of the desk that one mutation does not see. -/
structure Hides (id : Nat) (d d' : Desk R) : Prop where
  next : d.reconciler.nextId ≤ d'.reconciler.nextId
  handle : ∀ s, s.id = id → (s ∈ d'.handles ↔ s ∈ d.handles)
  flight : d'.find? id = d.find? id
  record : ∀ key, d'.reconciler.progress? key id = d.reconciler.progress? key id

theorem Hides.refl (d : Desk R) (id : Nat) : Hides id d d := ⟨Nat.le_refl _,fun _ _ => Iff.rfl,rfl,fun _ => rfl⟩

theorem Hides.trans {d'' : Desk R} (h : Hides id d d') (h' : Hides id d' d'') : Hides id d d'' where
  next := Nat.le_trans h.next h'.next
  handle s hs := (h'.handle s hs).trans (h.handle s hs)
  flight := h'.flight.trans h.flight
  record key := (h'.record key).trans (h.record key)

theorem hides_reconciler {i : Nat} (hne : id ≠ i) {r : Reconciler R}
    (h : Reconciler.Spares i d.reconciler r) : Hides id d { d with reconciler := r } :=
  ⟨Nat.le_of_eq h.next.symm,fun _ _ => Iff.rfl,rfl,fun key => h.others key id hne⟩

private theorem hides_discard (d : Desk R) {i : Nat} (hne : id ≠ i) : Hides id d (d.discard i) := by
  refine ⟨Nat.le_refl _,fun s hs => ?_,rfl,fun _ => rfl⟩
  rw [discard,List.mem_filter]
  simp [hs,hne]

private theorem hides_without (d : Desk R) {i : Nat} (hne : id ≠ i) : Hides id d (d.without i) :=
  ⟨Nat.le_refl _,fun _ _ => Iff.rfl,by rw [find?_without,if_neg hne],fun _ => rfl⟩

private theorem hides_requeue (d : Desk R) {f : Flight R} (hne : id ≠ f.id) : Hides id d (d.requeue f) :=
  ⟨Nat.le_refl _,fun _ _ => Iff.rfl,by rw [find?_requeue,if_neg hne],fun _ => rfl⟩

private theorem results_resolved_of_ne {i : Nat} (hne : id ≠ i) (x : Except MutationError Outcome) :
    results id ([.resolved i x] : List (Effect R)) = [] := by
  rw [results_resolved,if_neg (Ne.symm hne)]

/-- Nothing is submitted that is not held. -/
theorem submit_of_unheld (h : ∀ s ∈ d.handles, s.id ≠ id) : d.submit id = (d,[]) := by
  have hn : d.handles.find? (·.id = id) = none := by
    rw [List.find?_eq_none]
    intro s hs
    simpa using h s hs
  rw [submit,hn]

private theorem hides_submit (d : Desk R) {i : Nat} (hne : id ≠ i) :
    Hides id d (d.submit i).1 ∧ results id (d.submit i).2 = [] := by
  rw [submit]
  split
  · exact ⟨.refl d id,rfl⟩
  · next s hs =>
    have hid : s.id = i := by simpa using List.find?_some hs
    dsimp only
    split
    · exact ⟨hides_discard d hne,results_resolved_of_ne hne _⟩
    · exact ⟨hides_discard d hne,results_resolved_of_ne hne _⟩
    · next r m hr =>
      have hspares : Reconciler.Spares i (d.discard i).reconciler r :=
        hid ▸ Reconciler.spares_beginSubmit hr
      exact ⟨((hides_discard d hne).trans (hides_reconciler hne hspares)).trans (hides_requeue _ hne),rfl⟩

variable [Row R]

private theorem hides_reply (d : Desk R) {i : Nat} (hne : id ≠ i) (answer : Except AdapterError Txid) :
    Hides id d (d.reply i answer).1 ∧ results id (d.reply i answer).2 = [] := by
  rw [reply]
  split
  · next key m signal _ =>
    cases answer with
    | error e =>
      have hspares := Reconciler.spares_rollBack d.reconciler key i (.ofAdapter e)
      exact ⟨(hides_reconciler hne hspares).trans (hides_without _ hne),results_resolved_of_ne hne _⟩
    | ok t =>
      dsimp only
      split
      · exact ⟨hides_without d hne,results_resolved_of_ne hne _⟩
      · next r hr =>
        exact ⟨(hides_reconciler hne (Reconciler.spares_awaitTxid hr)).trans (hides_without _ hne),
          results_resolved_of_ne hne _⟩
      · next r hr =>
        exact ⟨(hides_reconciler hne (Reconciler.spares_awaitTxid hr)).trans (hides_requeue _ hne),rfl⟩
  · exact ⟨.refl d id,rfl⟩

private theorem hides_read (d : Desk R) {i : Nat} (hne : id ≠ i) (answer : Except AdapterError (Option R)) :
    Hides id d (d.read i answer).1 ∧ results id (d.read i answer).2 = [] := by
  rw [read]
  split
  · next key m t signal _ =>
    cases signal with
    | some t => exact ⟨hides_without d hne,results_resolved_of_ne hne _⟩
    | none =>
      have hspares := Reconciler.spares_settle d.reconciler key i t m answer
      exact ⟨(hides_reconciler hne hspares).trans (hides_without _ hne),results_resolved_of_ne hne _⟩
  · exact ⟨.refl d id,rfl⟩

omit [Row R] in
private theorem hides_expire (d : Desk R) {i : Nat} (hne : id ≠ i) :
    Hides id d (d.expire i).1 ∧ results id (d.expire i).2 = [] := by
  rw [expire]
  split
  · split
    · exact ⟨hides_requeue d hne,rfl⟩
    · exact ⟨.refl d id,rfl⟩
  · exact ⟨.refl d id,rfl⟩

/-- An action on one mutation is hidden from all others. -/
theorem hides_step {a : Action R} {i : Nat} (ha : a.subject? = some i) (hne : id ≠ i) :
    Hides id d (d.step a) ∧ results id (d.act a).2 = [] := by
  cases a with
  | discard j => cases ha; exact ⟨hides_discard d hne,rfl⟩
  | submit j => cases ha; exact hides_submit d hne
  | abort j => cases ha; exact ⟨hides_without d hne,rfl⟩
  | reply j answer => cases ha; exact hides_reply d hne answer
  | expire j => cases ha; exact hides_expire d hne
  | read j answer => cases ha; exact hides_read d hne answer
  | stage fresh m | advance ms | remote cs | snapshot rows resync | seed rows | close => cases ha

/-! ### The stream's word -/

omit [Row R] in
@[simp] theorem handles_wake (d : Desk R) (cs : List Confirmation) : (d.wake cs).1.handles = d.handles := by
  induction cs generalizing d with
  | nil => rfl
  | cons c cs ih =>
    have hone : (d.wakeOne c).1.handles = d.handles := by
      rw [wakeOne]
      split <;> rfl
    simp only [wake,ih,hone]

omit [Row R] in
private theorem find?_signal (d : Desk R) (i id : Nat) (t : Txid) :
    ({ d with flights := d.flights.map fun f => if f.id = i then { f with signal := some t } else f } :
      Desk R).find? id =
      (d.find? id).map fun f => if f.id = i then { f with signal := some t } else f := by
  rw [find?,List.find?_map,find?]
  congr 2
  funext f
  simp only [Function.comp]
  split <;> rfl

omit [Row R] in
theorem hides_wakeOne (d : Desk R) {c : Confirmation} (hne : id ≠ c.id) :
    (d.wakeOne c).1.find? id = d.find? id ∧ results id (d.wakeOne c).2 = [] := by
  rw [wakeOne]
  split
  · exact ⟨by rw [resolve,find?_without,if_neg hne],results_resolved_of_ne hne _⟩
  · refine ⟨?_,rfl⟩
    rw [find?_signal]
    cases hf : d.find? id with
    | none => rfl
    | some f => rw [Option.map_some,id_of_find? hf,if_neg hne]
  · exact ⟨rfl,rfl⟩

omit [Row R] in
/-- A submission that is not confirmed is not woken. -/
theorem wake_of_absent {cs : List Confirmation} (h : ∀ c ∈ cs, c.id ≠ id) :
    (d.wake cs).1.find? id = d.find? id ∧ results id (d.wake cs).2 = [] := by
  induction cs generalizing d with
  | nil => exact ⟨rfl,rfl⟩
  | cons c cs ih =>
    obtain ⟨hfind,hresults⟩ := hides_wakeOne d (Ne.symm (h c List.mem_cons_self))
    obtain ⟨hfind',hresults'⟩ := ih (d := (d.wakeOne c).1) fun c hc => h c (List.mem_cons_of_mem _ hc)
    exact ⟨hfind'.trans hfind,by rw [wake,results_append,hresults,hresults']; rfl⟩

omit [Row R] in
theorem wake_of_none (h : d.find? id = none) (cs : List Confirmation) :
    (d.wake cs).1.find? id = none ∧ results id (d.wake cs).2 = [] := by
  induction cs generalizing d with
  | nil => exact ⟨h,rfl⟩
  | cons c cs ih =>
    have hone : (d.wakeOne c).1.find? id = none ∧ results id (d.wakeOne c).2 = [] := by
      by_cases hid : id = c.id
      · subst hid
        have hsame : d.wakeOne c = (d,[]) := by simp only [wakeOne,h]
        rw [hsame]
        exact ⟨h,rfl⟩
      · rw [(hides_wakeOne d hid).1,(hides_wakeOne d hid).2]
        exact ⟨h,rfl⟩
    obtain ⟨hfind,hresults⟩ := ih hone.1
    exact ⟨hfind,by rw [wake,results_append,hone.2,hresults]; rfl⟩

omit [Row R] in
/-- A submission that waits for its confirmation ends with the first one. -/
theorem wake_of_confirmation {cs : List Confirmation} {f : Flight R} {t : Txid} {deadline : Nat}
    (hf : d.find? id = some f) (hp : f.phase = .confirmation t deadline) (hc : ∃ c ∈ cs, c.id = id) :
    (d.wake cs).1.find? id = none ∧
      ∃ c ∈ cs, c.id = id ∧ results id (d.wake cs).2 = [.ok (.confirmed f.key c.txid)] := by
  induction cs generalizing d with
  | nil => obtain ⟨c,hc,_⟩ := hc; cases hc
  | cons c cs ih =>
    rw [wake,results_append]
    by_cases hid : c.id = id
    · subst hid
      obtain ⟨i,key,m,phase,signal⟩ := f
      obtain rfl : phase = _ := hp
      have hone : d.wakeOne c = d.resolve c.id (.ok (.confirmed key c.txid)) := by
        simp only [wakeOne,hf]
      have hn : (d.wakeOne c).1.find? c.id = none := by
        rw [hone,resolve,find?_without,if_pos rfl]
      obtain ⟨hfind,hresults⟩ := wake_of_none hn cs
      refine ⟨hfind,c,List.mem_cons_self,rfl,?_⟩
      rw [hresults,hone,resolve,results_resolved,if_pos rfl,List.append_nil]
    · obtain ⟨hone,hresults⟩ := hides_wakeOne d (Ne.symm hid)
      obtain ⟨x,hx,hxid⟩ := hc
      have hrest : ∃ c ∈ cs, c.id = id := by
        rcases List.mem_cons.mp hx with rfl | hx
        · exact absurd hxid hid
        · exact ⟨x,hx,hxid⟩
      obtain ⟨hfind,y,hy,hyid,hyresults⟩ := ih (hone.trans hf) hrest
      exact ⟨hfind,y,List.mem_cons_of_mem _ hy,hyid,by rw [hresults,hyresults]; rfl⟩

omit [Row R] in
/-- A submission that waits for a row keeps the confirmation until the row arrives. -/
theorem wake_of_reading {cs : List Confirmation} {f : Flight R} {t : Txid}
    (hf : d.find? id = some f) (hp : f.phase = .reading t) (hc : ∃ c ∈ cs, c.id = id) :
    results id (d.wake cs).2 = [] ∧
      ∃ c ∈ cs, c.id = id ∧ (d.wake cs).1.find? id = some { f with signal := some c.txid } := by
  induction cs generalizing d f with
  | nil => obtain ⟨c,hc,_⟩ := hc; cases hc
  | cons c cs ih =>
    rw [wake,results_append]
    by_cases hid : c.id = id
    · subst hid
      have hone : (d.wakeOne c).1.find? c.id = some { f with signal := some c.txid } ∧
          results c.id (d.wakeOne c).2 = [] := by
        obtain ⟨i,key,m,phase,signal⟩ := f
        obtain rfl : phase = _ := hp
        obtain rfl : i = c.id := id_of_find? hf
        simp only [wakeOne,hf]
        refine ⟨?_,rfl⟩
        rw [find?_signal,hf,Option.map_some,if_pos rfl]
      by_cases hrest : ∃ x ∈ cs, x.id = c.id
      · obtain ⟨hresults,y,hy,hyid,hfind⟩ := ih hone.1 hp hrest
        exact ⟨by rw [hone.2,hresults]; rfl,y,List.mem_cons_of_mem _ hy,hyid,hfind⟩
      · have habsent : ∀ x ∈ cs, x.id ≠ c.id := fun x hx hxid => hrest ⟨x,hx,hxid⟩
        obtain ⟨hfind,hresults⟩ := wake_of_absent (d := (d.wakeOne c).1) habsent
        exact ⟨by rw [hone.2,hresults]; rfl,c,List.mem_cons_self,rfl,hfind.trans hone.1⟩
    · obtain ⟨hone,hresults⟩ := hides_wakeOne d (Ne.symm hid)
      obtain ⟨x,hx,hxid⟩ := hc
      have hrest : ∃ c ∈ cs, c.id = id := by
        rcases List.mem_cons.mp hx with rfl | hx
        · exact absurd hxid hid
        · exact ⟨x,hx,hxid⟩
      obtain ⟨hresults',y,hy,hyid,hfind⟩ := ih (hone.trans hf) hp hrest
      exact ⟨by rw [hresults,hresults']; rfl,y,List.mem_cons_of_mem _ hy,hyid,hfind⟩

end Desk
end FieldReplica
