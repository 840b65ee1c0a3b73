import FieldReplica.Proofs.Telling

/-!
# A board as a reconciler

Reading each slip as how far its mutation has come makes a reconciler of a board. As long as the slips agree,
whatever is done to the board is done to that reconciler.
-/
namespace FieldReplica

variable {R : Type}

namespace Slip

variable {s : Slip R}

@[simp] theorem id_pending (s : Slip R) : s.pending.id = s.id := rfl

@[simp] theorem mutation_pending (s : Slip R) : s.pending.mutation = s.mutation := rfl

@[simp] theorem base_pending (s : Slip R) : s.pending.base = s.base := rfl

@[simp] theorem txid?_pending (s : Slip R) : s.pending.txid? = s.txid := by
  cases hx : s.txid with
  | none => cases hs : s.submitted <;> simp [pending,Pending.txid?,hx,hs]
  | some t => simp [pending,Pending.txid?,hx]

theorem Linked.isSubmitted (h : s.Linked) : s.pending.isSubmitted = s.submitted := by
  cases hx : s.txid with
  | none => cases hs : s.submitted <;> simp [pending,Pending.isSubmitted,hx,hs]
  | some t =>
    have hsent : s.submitted = true := h.sent (h.awaiting.mpr (by rw [hx]; rfl))
    simp [pending,Pending.isSubmitted,hx,hsent]

private theorem Linked.txid_of_unsent (h : s.Linked) (hs : s.submitted = false) : s.txid = none := by
  cases hx : s.txid with
  | none => rfl
  | some t =>
    have hsent := h.sent (h.awaiting.mpr (by rw [hx]; rfl))
    rw [hs] at hsent
    cases hsent

end Slip

namespace Board

variable [Row R] {b b' : Board R} {key : String} {s : Slip R} {id : Nat}

omit [Row R] in
@[simp] theorem closed_reconciler (b : Board R) : b.reconciler.closed = b.closed := rfl

omit [Row R] in
@[simp] theorem store_reconciler (b : Board R) : b.reconciler.store = b.store := rfl

omit [Row R] in
private theorem find?_pending (b : Board R) (key : String) :
    b.reconciler.ledger.pending.find? key = (b.slips.find? key).map Slip.pending :=
  Table.find?_map _ _ _

omit [Row R] in
private theorem find?_reconciler (b : Board R) (key : String) (id : Nat) :
    b.reconciler.find? key id = (b.find? key id).map Slip.pending := by
  rw [Reconciler.find?,Ledger.find?,find?_pending,find?]
  cases b.slips.find? key with
  | none => rfl
  | some s => by_cases hs : s.id = id <;> simp [Option.filter,hs]

omit [Row R] in
private theorem reconciler_put (b : Board R) (key : String) (s : Slip R) : (b.put key s).reconciler =
    { b.reconciler with ledger := b.reconciler.ledger.put key s.pending } := by
  simp only [reconciler,put,Table.map_insert,Ledger.put]

omit [Row R] in
private theorem reconciler_remove (b : Board R) (key : String) : (b.remove key).reconciler =
    { b.reconciler with ledger := b.reconciler.ledger.remove key } := by
  simp only [reconciler,remove,Table.map_erase,Ledger.remove]

/-- A slip that comes off is a record that is retired, whatever becomes of its line. -/
theorem reconciler_off (b : Board R) (key : String) (i : Nat) (l : Line) (v : Option R) :
    (((b.remove key).setLine i l).write [.restore key v]).reconciler = b.reconciler.retire key v := by
  rw [Reconciler.retire,← reconciler_remove]
  rfl

/-! ### Local writes -/

private theorem reconciler_add (b : Board R) (m : Mutation R) (v : Option R) :
    ((({ b with nextId := b.nextId + 1 } : Board R).setLine b.nextId .silent).put m.key
      ⟨b.nextId,m,.applied,false,v,none,true⟩).reconciler = { b.reconciler with
        ledger := b.reconciler.ledger.put m.key ⟨b.nextId,m,.staged,v⟩
        nextId := b.nextId + 1 } := by
  rw [reconciler_put]
  rfl

theorem Sound.reconciler_stage (h : b.Sound) (fresh : String) (m : Mutation R) :
    b.reconciler.stage fresh m = (b.stage fresh m).map fun x => (x.1.reconciler,x.2) := by
  rw [Reconciler.stage,stage]
  split
  · rfl
  dsimp only
  generalize Reconciler.withKey fresh m = n
  rw [closed_reconciler,find?_pending]
  split
  · rfl
  cases hs : b.slips.find? n.key with
  | none =>
    simp only [Option.map_none,store_reconciler]
    cases Reconciler.optimistic n (b.store.get? n.key) with
    | error e => rfl
    | ok w =>
      have hadd := congrArg (fun r : Reconciler R => r.write [w]) (reconciler_add b n (b.store.get? n.key))
      exact congrArg (fun r => Except.ok (r,Staging.staged ⟨b.nextId,n.key,n.kind⟩)) hadd.symm
  | some s =>
    have hl := h.linked _ s hs
    have hcancels : Reconciler.cancels n s.pending =
        (n.kind = .delete && s.mutation.kind = .insert && !s.submitted) := by
      rw [Reconciler.cancels,hl.isSubmitted]
      rfl
    simp only [Option.map_some,hcancels]
    split
    · have hoff := reconciler_off b n.key s.id .cut s.base
      rw [drop_eq hl.sender]
      exact congrArg (fun r => Except.ok (r,Staging.cancelled n.key)) hoff.symm
    · rfl

/-- A mutation that was not sent begins to be sent. -/
theorem Sound.reconciler_beginSubmit (h : b.Sound) {g : Staged}
    (hunsent : ∀ s, b.slips.find? g.key = some s → s.id = g.id → s.submitted = false) :
    b.reconciler.beginSubmit g = (b.beginSubmit g).map fun x => (x.1.reconciler,x.2) := by
  rw [Reconciler.beginSubmit,beginSubmit,find?_reconciler]
  cases hs : b.find? g.key g.id with
  | none =>
    by_cases hc : b.closed = true
    · have hc' : b.reconciler.closed = true := hc
      simp only [Option.map_none,if_pos hc,if_pos hc']
      rfl
    · have hc' : ¬ b.reconciler.closed = true := hc
      simp only [Option.map_none,if_neg hc,if_neg hc']
      rfl
  | some s =>
    obtain ⟨hfound,hid⟩ := find?_eq_some.mp hs
    have hx := (h.linked _ s hfound).txid_of_unsent (hunsent s hfound hid)
    have hsent : ({ s with submitted := true } : Slip R).pending = { s.pending with progress := .submitted } := by
      simp [Slip.pending,hx]
    have hput := reconciler_put b g.key { s with submitted := true }
    rw [hsent] at hput
    exact congrArg (fun r => Except.ok (r,Sending.send s.mutation)) hput.symm

theorem Sound.reconciler_rollBack (h : b.Sound) (key : String) (id : Nat) (e : MutationError) :
    (b.rollBack key id e).reconciler = b.reconciler.rollBack key id e := by
  cases hs : b.find? key id with
  | none =>
    have hnone : b.reconciler.find? key id = none := by rw [find?_reconciler,hs]; rfl
    rw [Reconciler.rollBack_of_none hnone,rollBack,hs]
  | some s =>
    have hsome : b.reconciler.find? key id = some s.pending := by rw [find?_reconciler,hs]; rfl
    rw [Reconciler.rollBack_of_some hsome,h.rollBack_eq hs,Slip.base_pending,
      ← reconciler_off b key s.id .cut]
    rfl

theorem Sound.reconciler_awaitTxid (h : b.Sound) (key : String) (id : Nat) (t : Txid) :
    b.reconciler.awaitTxid key id t = (b.awaitTxid key id t).map fun x => (x.1.reconciler,x.2) := by
  cases hs : b.find? key id with
  | none =>
    rw [Reconciler.awaitTxid,awaitTxid,find?_reconciler,hs]
    rfl
  | some s =>
    have hsome : b.reconciler.find? key id = some s.pending := by rw [find?_reconciler,hs]; rfl
    have hobserved : b.reconciler.ledger.observed = b.observed := rfl
    rw [Reconciler.awaitTxid_of_some hsome,h.awaitTxid_eq hs,Slip.base_pending,
      ← reconciler_off b key s.id (.said t),hobserved]
    split
    · rfl
    · have hput := reconciler_put b key { s with txid := some t, state := .awaitingConfirmation }
      exact congrArg (fun r => Except.ok (r,false)) hput.symm

theorem Sound.reconciler_settle (h : b.Sound) (key : String) (id : Nat) (t : Txid) (m : Mutation R)
    (answer : Except AdapterError (Option R)) : b.reconciler.settle key id t m answer =
      ((b.settle key id t m answer).1.reconciler,(b.settle key id t m answer).2) := by
  cases hs : b.find? key id with
  | none =>
    have hnone : b.reconciler.find? key id = none := by rw [find?_reconciler,hs]; rfl
    rw [Reconciler.settle_of_none hnone,settle,hs]
  | some s =>
    have hsome : b.reconciler.find? key id = some s.pending := by rw [find?_reconciler,hs]; rfl
    obtain ⟨l,_,heq⟩ := h.settle_eq hs t m answer
    rw [Reconciler.settle_of_some hsome,heq,← reconciler_off b key s.id l]
    rfl

theorem reconciler_seed (b : Board R) (rows : List R) : (b.seed rows).reconciler = b.reconciler.seed rows := by
  simp only [seed,Reconciler.seed,reconciler,Table.contains_map]
  rfl

theorem Sound.reconciler_close (h : b.Sound) : b.close.reconciler = b.reconciler.close := by
  rw [h.close_eq]
  rfl

/-! ### The stream -/

omit [Row R] in
@[simp] theorem store_drop (b : Board R) (s : Slip R) : (b.drop s).store = b.store := by
  rw [drop]
  split <;> rfl

omit [Row R] in
@[simp] theorem observed_drop (b : Board R) (s : Slip R) : (b.drop s).observed = b.observed := by
  rw [drop]
  split <;> rfl

omit [Row R] in
@[simp] theorem store_confirm (b : Board R) (s : Slip R) (t : Txid) : (b.confirm s t).store = b.store := by
  simp only [confirm,store_drop]
  split <;> rfl

omit [Row R] in
@[simp] theorem observed_confirm (b : Board R) (s : Slip R) (t : Txid) :
    (b.confirm s t).observed = b.observed := by
  simp only [confirm,observed_drop]
  split <;> rfl

omit [Row R] in
private theorem fold_unchanged {α β : Type} {f : Board R → α → Takings R} {g : Board R → β}
    (hf : ∀ b a, g (f b a).board = g b) (b : Board R) (as : List α) : g (b.fold f as).board = g b := by
  induction as generalizing b with
  | nil => rfl
  | cons a as ih => exact (ih _).trans (hf b a)

omit [Row R] in
private theorem store_receive (b : Board R) (c : RemoteChange R) : (b.receive c).board.store = b.store := by
  rw [receive]
  split
  · rfl
  · dsimp only
    split
    · exact store_confirm _ _ _
    · rfl

private theorem Sound.reconciler_receive (h : b.Sound) (c : RemoteChange R) : b.reconciler.ledger.receive c =
    ⟨(b.receive c).board.reconciler.ledger,(b.receive c).writes,(b.receive c).confirmed⟩ := by
  cases hs : b.slips.find? c.key with
  | none =>
    have hnone : b.reconciler.ledger.pending.find? c.key = none := by rw [find?_pending,hs]; rfl
    rw [Ledger.receive_of_none hnone,receive_of_none hs]
  | some s =>
    have hsome : b.reconciler.ledger.pending.find? c.key = some s.pending := by rw [find?_pending,hs]; rfl
    have hmatched : s.pending.matched? c.txids = s.txid.filter (· ∈ c.txids) := by
      rw [Pending.matched?,Slip.txid?_pending]
    cases ht : s.txid.filter (· ∈ c.txids) with
    | some t =>
      rw [Ledger.receive_of_matched hsome (hmatched.trans ht),h.receive_of_matched hs ht]
      exact congrArg (fun r : Reconciler R => Ledger.Receipt.mk r.ledger _ _) (reconciler_remove b c.key).symm
    | none =>
      rw [Ledger.receive_of_unmatched hsome (hmatched.trans ht),receive_of_unmatched hs ht]
      have hput := congrArg (fun r : Reconciler R => r.ledger.pending)
        (reconciler_put b c.key { s with base := c.row })
      exact congrArg (fun p => Ledger.Receipt.mk ⟨p,b.observed.recordAll c.key c.txids⟩ _ _) hput.symm

private theorem Sound.reconciler_receiveAll (h : b.Sound) (cs : List (RemoteChange R)) :
    b.reconciler.ledger.receiveAll cs = ⟨(b.fold receive cs).board.reconciler.ledger,
      (b.fold receive cs).writes,(b.fold receive cs).confirmed⟩ := by
  induction cs generalizing b with
  | nil => rfl
  | cons c cs ih =>
    have hrest := ih (h.leads_receive c).sound
    rw [Ledger.receiveAll,h.reconciler_receive c]
    dsimp only
    rw [hrest]
    rfl

theorem Sound.reconciler_applyRemote (h : b.Sound) (cs : List (RemoteChange R)) :
    b.reconciler.applyRemote cs = ((b.applyRemote cs).1.reconciler,(b.applyRemote cs).2) := by
  have hall := h.reconciler_receiveAll cs
  have hstore := fold_unchanged (g := Board.store) store_receive b cs
  have hlead := h.leads_fold (fun _ h => h.leads_receive) cs
  rw [Reconciler.applyRemote,hall,applyRemote]
  simp only [Reconciler.write,Reconciler.announce,reconciler,write,announce,hstore,hlead.next,hlead.closed]

/-! ### A full image -/

private theorem reflected?_pending (image : Table String R) (key : String) (s : Slip R) :
    s.pending.reflected? (image.find? key) = reflected? image key s := by
  rw [Pending.reflected?,reflected?,Slip.txid?_pending,Slip.mutation_pending]

private theorem store_reflect (image : Table String R) (b : Board R) (key : String) :
    (reflect image b key).board.store = b.store := by
  rw [reflect]
  split
  · rfl
  · dsimp only
    split
    · split
      · exact store_confirm _ _ _
      · exact store_drop _ _
    · rfl

private theorem observed_reflect (image : Table String R) (b : Board R) (key : String) :
    (reflect image b key).board.observed = b.observed := by
  rw [reflect]
  split
  · rfl
  · dsimp only
    split
    · split
      · exact observed_confirm _ _ _
      · exact observed_drop _ _
    · rfl

/-- What a full image leaves of the slip of a key. -/
def afterImage (image : Table String R) (key : String) (s : Slip R) : Option (Slip R) :=
  if (reflected? image key s).isSome then none else some { s with base := image.find? key }

/-- What a full image confirms under a key. -/
def shownBy (image : Table String R) (b : Board R) (key : String) : Option Confirmation :=
  (b.slips.find? key).bind fun s => (reflected? image key s).map fun t => ⟨s.id,key,t⟩

private theorem Sound.find?_reflect (h : b.Sound) (image : Table String R) (key k : String) :
    (reflect image b key).board.slips.find? k =
      if k = key then (b.slips.find? k).bind (afterImage image k) else b.slips.find? k := by
  cases hs : b.slips.find? key with
  | none =>
    rw [reflect_of_none hs]
    split
    · next hk => rw [hk,hs]; rfl
    · rfl
  | some s =>
    rw [h.reflect_of_some image hs]
    by_cases hk : k = key
    · subst hk
      rw [if_pos rfl,hs,Option.bind_some,afterImage]
      cases reflected? image k s with
      | some t => exact Table.find?_erase_self _ _
      | none => exact Table.find?_insert_self _ _ _
    · rw [if_neg hk]
      cases reflected? image key s with
      | some t => exact Table.find?_erase_ne _ hk
      | none => exact Table.find?_insert_ne _ _ hk

private theorem Sound.reflect_takings (h : b.Sound) (image : Table String R) (key : String) :
    (reflect image b key).confirmed = (shownBy image b key).toList ∧
      (reflect image b key).writes =
        (shownBy image b key).toList.map fun c => .restore c.key (image.find? c.key) := by
  rw [shownBy]
  cases hs : b.slips.find? key with
  | none =>
    rw [reflect_of_none hs]
    exact ⟨rfl,rfl⟩
  | some s =>
    rw [h.reflect_of_some image hs]
    cases hr : reflected? image key s <;> simp [hr]

/-- An image is held against each key by itself. -/
theorem Sound.fold_reflect (h : b.Sound) (image : Table String R) {ks : List String} (hks : ks.Nodup) :
    (∀ k, (b.fold (reflect image) ks).board.slips.find? k =
      if k ∈ ks then (b.slips.find? k).bind (afterImage image k) else b.slips.find? k) ∧
    (b.fold (reflect image) ks).confirmed = ks.filterMap (shownBy image b) ∧
    (b.fold (reflect image) ks).writes =
      (ks.filterMap (shownBy image b)).map fun c => .restore c.key (image.find? c.key) := by
  induction ks generalizing b with
  | nil => exact ⟨fun k => by simp [fold],rfl,rfl⟩
  | cons key ks ih =>
    obtain ⟨hfresh,hrest⟩ := List.nodup_cons.mp hks
    obtain ⟨hslips,hconfirmed,hwrites⟩ := ih (h.leads_reflect image key).sound hrest
    obtain ⟨hc,hw⟩ := h.reflect_takings image key
    -- the other keys are found as they were before this one was looked at
    have hsame : ks.filterMap (shownBy image (reflect image b key).board) = ks.filterMap (shownBy image b) := by
      refine List.filterMap_congr fun k hk => ?_
      have hne : k ≠ key := fun he => hfresh (he ▸ hk)
      rw [shownBy,shownBy,h.find?_reflect,if_neg hne]
    have hcons : (key::ks).filterMap (shownBy image b) =
        (shownBy image b key).toList ++ ks.filterMap (shownBy image b) := by
      cases hx : shownBy image b key <;> simp [hx]
    refine ⟨fun k => ?_,?_,?_⟩
    · rw [fold]
      dsimp only
      rw [hslips,h.find?_reflect]
      by_cases hk : k = key
      · subst hk
        rw [if_neg hfresh,if_pos rfl,if_pos List.mem_cons_self]
      · simp [hk]
    · rw [fold,hcons]
      dsimp only
      rw [hconfirmed,hc,hsame]
    · rw [fold,hcons,List.map_append]
      dsimp only
      rw [hwrites,hw,hsame]

theorem Sound.reflectedBy_eq (h : b.Sound) (image : Table String R) :
    b.reconciler.ledger.reflectedBy image = (b.fold (reflect image) b.slips.keys).confirmed := by
  rw [(h.fold_reflect image b.slips.nodup_keys).2.1,Ledger.reflectedBy,Table.keys,List.filterMap_map]
  have hentries : b.reconciler.ledger.pending.entries = b.slips.entries.map fun e => (e.1,e.2.pending) := rfl
  rw [hentries,List.filterMap_map]
  refine List.filterMap_congr fun e he => ?_
  have hfound : b.slips.find? e.1 = some e.2 := Table.mem_entries.mp he
  simp only [Function.comp_apply,shownBy,hfound,Option.bind_some,reflected?_pending,Slip.id_pending]

private theorem Sound.rebase_eq (h : b.Sound) (image : Table String R) :
    b.reconciler.ledger.rebase image = (b.fold (reflect image) b.slips.keys).board.reconciler.ledger := by
  have hslips : ∀ k, (b.fold (reflect image) b.slips.keys).board.slips.find? k =
      (b.slips.find? k).bind (afterImage image k) := by
    intro k
    rw [(h.fold_reflect image b.slips.nodup_keys).1]
    split
    · rfl
    · next hk =>
      have hnone : b.slips.find? k = none := by
        cases hs : b.slips.find? k with
        | none => rfl
        | some s => exact absurd (Table.mem_keys.mpr (by rw [hs]; rfl)) hk
      rw [hnone]
      rfl
  have hpending : (b.reconciler.ledger.rebase image).pending =
      (b.fold (reflect image) b.slips.keys).board.reconciler.ledger.pending := by
    apply Table.ext_find?
    intro k
    rw [Ledger.find?_rebase,find?_pending,find?_pending,hslips]
    cases b.slips.find? k with
    | none => rfl
    | some s =>
      simp only [Option.map_some,Option.bind_some,Pending.afterImage,reflected?_pending,afterImage]
      split <;> rfl
  have hobserved := fold_unchanged (g := Board.observed) (observed_reflect image) b b.slips.keys
  exact congrArg₂ Ledger.mk hpending hobserved.symm

theorem Sound.reconciler_applySnapshot (h : b.Sound) (rows : List R) (resync : Bool) :
    b.reconciler.applySnapshot rows resync =
      ((b.applySnapshot rows resync).1.reconciler,(b.applySnapshot rows resync).2) := by
  rw [Reconciler.applySnapshot,applySnapshot]
  generalize (Table.ofList (rows.map fun row => (Row.key row,row)) : Table String R) = image
  have hlead := h.leads_fold (fun _ h => h.leads_reflect image) b.slips.keys
  have hstore := fold_unchanged (g := Board.store) (store_reflect image) b b.slips.keys
  obtain ⟨_,hconfirmed,hwrites⟩ := h.fold_reflect image b.slips.nodup_keys
  have hremovals : b.reconciler.removals image =
      (b.store.keys.filter fun key => !image.contains key && !b.slips.contains key).map .delete := by
    simp only [Reconciler.removals,reconciler,Table.contains_map]
  have hkept : ∀ k, (b.fold (reflect image) b.slips.keys).board.reconciler.ledger.pending.contains k =
      (b.fold (reflect image) b.slips.keys).board.slips.contains k := fun k => Table.contains_map _ _ k
  simp only [h.reflectedBy_eq,h.rebase_eq,hremovals,hkept,hwrites,← hconfirmed]
  cases resync <;>
    simp only [Reconciler.write,Reconciler.announce,Reconciler.notify,reconciler,write,announce,notify,hstore,
      hlead.next,hlead.closed] <;> rfl

end Board
end FieldReplica
