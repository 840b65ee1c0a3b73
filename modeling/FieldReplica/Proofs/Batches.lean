import FieldReplica.Proofs.Moves

/-!
# Where a batch is cut

The changes of the stream may come in one batch or in several. Inside a batch a record is retired at once, while
the rows are written and the confirmations reported at its end, so a key that is confirmed early and changed
later in one batch goes another way than in two. The desk is the same in the end: only the version of the store
and the place of the confirmations between the changes tell how the changes came.
-/
namespace FieldReplica

variable {R : Type} [Row R]

def Event.change? : Event R → Option (Change R)
  | .changed c => some c
  | _ => none

/-- The key and the transaction of the mutation that an event confirms. -/
def Event.confirmation? : Event R → Option (String × Txid)
  | .confirmed key t => some (key,t)
  | _ => none

namespace Store

variable (s : Store R)

/-- The changes of rows that have been reported, in order. -/
def changed : List (Change R) := s.channel.log.filterMap Event.change?

/-- The confirmations that have been reported, in order. -/
def confirmed : List (String × Txid) := s.channel.log.filterMap Event.confirmation?

private theorem changed_write (ws : List (Write R)) :
    (s.write ws).changed = s.changed ++ Write.changes s.rows ws := by
  have hnew : ((Write.changes s.rows ws).map Event.changed).filterMap Event.change? =
      Write.changes s.rows ws := by
    rw [List.filterMap_map]
    exact List.filterMap_some
  change (s.channel.log ++ _).filterMap _ = _
  rw [List.filterMap_append,hnew]
  rfl

private theorem confirmed_write (ws : List (Write R)) : (s.write ws).confirmed = s.confirmed := by
  have hnew : ((Write.changes s.rows ws).map Event.changed).filterMap Event.confirmation? = [] := by
    rw [List.filterMap_map]
    exact List.filterMap_eq_nil_iff.mpr fun _ _ => rfl
  change (s.channel.log ++ _).filterMap _ = _
  rw [List.filterMap_append,hnew,List.append_nil]
  rfl

end Store

namespace Reconciler

variable (r : Reconciler R)

omit [Row R] in
private theorem changed_announce (cs : List Confirmation) : (r.announce cs).store.changed = r.store.changed := by
  have hnew : (cs.map fun c => (.confirmed c.key c.txid : Event R)).filterMap Event.change? = [] := by
    rw [List.filterMap_map]
    exact List.filterMap_eq_nil_iff.mpr fun _ _ => rfl
  change (r.store.channel.log ++ _).filterMap _ = _
  rw [List.filterMap_append,hnew,List.append_nil]
  rfl

omit [Row R] in
private theorem confirmed_announce (cs : List Confirmation) :
    (r.announce cs).store.confirmed = r.store.confirmed ++ cs.map fun c => (c.key,c.txid) := by
  have hnew : (cs.map fun c => (.confirmed c.key c.txid : Event R)).filterMap Event.confirmation? =
      cs.map fun c => (c.key,c.txid) := by
    rw [List.filterMap_map]
    exact congrFun List.filterMap_eq_map cs
  change (r.store.channel.log ++ _).filterMap _ = _
  rw [List.filterMap_append,hnew]
  rfl

theorem rows_applyRemote (cs : List (RemoteChange R)) :
    (r.applyRemote cs).1.store.rows = Write.applyAll r.store.rows (r.ledger.receiveAll cs).writes := rfl

private theorem changed_applyRemote (cs : List (RemoteChange R)) : (r.applyRemote cs).1.store.changed =
    r.store.changed ++ Write.changes r.store.rows (r.ledger.receiveAll cs).writes := by
  rw [applyRemote]
  dsimp only
  rw [changed_announce]
  exact Store.changed_write r.store _

theorem confirmed_applyRemote (cs : List (RemoteChange R)) : (r.applyRemote cs).1.store.confirmed =
    r.store.confirmed ++ (r.ledger.receiveAll cs).confirmed.map fun c => (c.key,c.txid) := by
  rw [applyRemote]
  dsimp only
  rw [confirmed_announce]
  congr 1
  exact Store.confirmed_write r.store _

/-- All that is seen of a reconciler but for the version of the store and for how the reports of changes and
those of confirmations stand between each other. -/
structure View (R : Type) where
  rows : Table String R
  ledger : Ledger R
  nextId : Nat
  closed : Bool
  changed : List (Change R)
  confirmed : List (String × Txid)

def view : View R := ⟨r.store.rows,r.ledger,r.nextId,r.closed,r.store.changed,r.store.confirmed⟩

/-- The ledger, the rows and the reports after a batch are those after its parts, one after the other. -/
theorem view_applyRemote_append (cs ds : List (RemoteChange R)) :
    ((r.applyRemote cs).1.applyRemote ds).1.view = (r.applyRemote (cs ++ ds)).1.view := by
  have hledger : (r.applyRemote cs).1.ledger = (r.ledger.receiveAll cs).ledger := rfl
  have hrows : ((r.applyRemote cs).1.applyRemote ds).1.store.rows =
      (r.applyRemote (cs ++ ds)).1.store.rows := by
    rw [rows_applyRemote,rows_applyRemote,rows_applyRemote,hledger,Ledger.receiveAll_append,
      Write.applyAll_append]
  have hledgers : ((r.applyRemote cs).1.applyRemote ds).1.ledger = (r.applyRemote (cs ++ ds)).1.ledger := by
    change ((r.ledger.receiveAll cs).ledger.receiveAll ds).ledger = (r.ledger.receiveAll (cs ++ ds)).ledger
    rw [Ledger.receiveAll_append]
  have hchanged : ((r.applyRemote cs).1.applyRemote ds).1.store.changed =
      (r.applyRemote (cs ++ ds)).1.store.changed := by
    rw [changed_applyRemote,changed_applyRemote,changed_applyRemote,rows_applyRemote,hledger,
      Ledger.receiveAll_append,Write.changes_append,List.append_assoc]
  have hconfirmed : ((r.applyRemote cs).1.applyRemote ds).1.store.confirmed =
      (r.applyRemote (cs ++ ds)).1.store.confirmed := by
    rw [confirmed_applyRemote,confirmed_applyRemote,confirmed_applyRemote,hledger,
      Ledger.receiveAll_append,List.map_append,List.append_assoc]
  rw [view,hrows,hledgers,hchanged,hconfirmed]
  rfl

private theorem view_applyRemote_nil : (r.applyRemote []).1.view = r.view := by
  rw [view,changed_applyRemote,confirmed_applyRemote]
  change View.mk _ _ _ _ (_ ++ []) (_ ++ []) = _
  rw [List.append_nil,List.append_nil]
  rfl

private theorem confirmations_applyRemote_append (cs ds : List (RemoteChange R)) :
    (r.applyRemote (cs ++ ds)).2 = (r.applyRemote cs).2 ++ ((r.applyRemote cs).1.applyRemote ds).2 :=
  congrArg (·.confirmed) (r.ledger.receiveAll_append cs ds)

end Reconciler

namespace Desk

/-- All that is seen of a desk, its reconciler being seen as above. -/
structure View (R : Type) where
  reconciler : Reconciler.View R
  handles : List Staged
  flights : List (Flight R)
  timeout : Nat
  now : Nat

def view (d : Desk R) : View R := ⟨d.reconciler.view,d.handles,d.flights,d.timeout,d.now⟩

omit [Row R] in
/-- Who is woken does not depend on the reconciler. -/
theorem wake_with (d : Desk R) (r : Reconciler R) (cs : List Confirmation) :
    ({ d with reconciler := r } : Desk R).wake cs =
      ({ (d.wake cs).1 with reconciler := r },(d.wake cs).2) := by
  have hone : ∀ (d : Desk R) (c : Confirmation), ({ d with reconciler := r } : Desk R).wakeOne c =
      ({ (d.wakeOne c).1 with reconciler := r },(d.wakeOne c).2) := by
    intro d c
    have hfind : ({ d with reconciler := r } : Desk R).find? c.id = d.find? c.id := rfl
    rw [wakeOne,wakeOne,hfind]
    split <;> rfl
  induction cs generalizing d with
  | nil => rfl
  | cons c cs ih => simp only [wake,hone,ih]

omit [Row R] in
private theorem wake_append (d : Desk R) (cs ds : List Confirmation) : d.wake (cs ++ ds) =
    (((d.wake cs).1.wake ds).1,(d.wake cs).2 ++ ((d.wake cs).1.wake ds).2) := by
  induction cs generalizing d with
  | nil => rfl
  | cons c cs ih => simp only [List.cons_append,wake,ih,List.append_assoc]

theorem remote_eq (d : Desk R) (cs : List (RemoteChange R)) : d.remote cs =
    ({ (d.wake (d.reconciler.applyRemote cs).2).1 with reconciler := (d.reconciler.applyRemote cs).1 },
      (d.wake (d.reconciler.applyRemote cs).2).2) :=
  wake_with d _ _

private theorem view_remote_append (d : Desk R) (cs ds : List (RemoteChange R)) :
    ((d.remote cs).1.remote ds).1.view = (d.remote (cs ++ ds)).1.view ∧
      (d.remote (cs ++ ds)).2 = (d.remote cs).2 ++ ((d.remote cs).1.remote ds).2 := by
  have hwords := d.reconciler.confirmations_applyRemote_append cs ds
  have hview := d.reconciler.view_applyRemote_append cs ds
  simp only [remote_eq,wake_with,hwords,wake_append,view,hview,and_self]

/-- The desk after some batches is the desk after all their changes in one, and ends the same submissions in
the same order. -/
theorem view_after_batches (d : Desk R) (batches : List (List (RemoteChange R))) :
    (d.after (batches.map .remote)).view = (d.remote batches.flatten).1.view ∧
      d.effects (batches.map .remote) = (d.remote batches.flatten).2 := by
  induction batches generalizing d with
  | nil =>
    refine ⟨?_,rfl⟩
    rw [List.flatten_nil,remote_eq,view,view,Reconciler.view_applyRemote_nil]
    rfl
  | cons cs batches ih =>
    obtain ⟨hview,heffects⟩ := ih (d.remote cs).1
    obtain ⟨hview',heffects'⟩ := view_remote_append d cs batches.flatten
    rw [List.flatten_cons]
    constructor
    · exact hview.trans hview'
    · rw [heffects',← heffects]
      rfl

/-- Two lists of changes come to the same in one batch and in two: the rows, the records, the transactions
that are remembered and their order, the submissions that are woken and what they return, and the reported
confirmations and their order. They come to the same in any other batches too. -/
theorem batch_cut_unseen (d : Desk R) (cs ds : List (RemoteChange R)) :
    let whole := d.act (.remote (cs ++ ds))
    let first := d.act (.remote cs)
    let second := first.1.act (.remote ds)
    second.1.view = whole.1.view ∧
      d.words (.remote (cs ++ ds)) = d.words (.remote cs) ++ first.1.words (.remote ds) ∧
      whole.2 = first.2 ++ second.2 ∧
      ∀ batches : List (List (RemoteChange R)), batches.flatten = cs ++ ds →
        (d.after (batches.map .remote)).view = whole.1.view ∧ d.effects (batches.map .remote) = whole.2 := by
  intro whole first second
  obtain ⟨hview,heffects⟩ := view_remote_append d cs ds
  refine ⟨hview,?_,heffects,?_⟩
  · have hreconciler : first.1.reconciler = (d.reconciler.applyRemote cs).1 := reconciler_remote d cs
    rw [words,words,words,hreconciler]
    exact d.reconciler.confirmations_applyRemote_append cs ds
  · intro batches hbatches
    have hrun := view_after_batches d batches
    rw [hbatches] at hrun
    exact hrun

end Desk
end FieldReplica
