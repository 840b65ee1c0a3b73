import FieldReplica.Proofs.Readiness
import FieldReplica.Proofs.Requests

/-!
# The parts of a closing

A collection is closed in four parts: its feed ends, its mutations end, its rows are dropped, and its status says
so. What a part has done stays done, whatever writers and other closings do, and whatever the server still answers.
Once mutations have ended all that is left to happen is that submissions end. One that waits for its transaction
ends with that part itself, and every other one when the answer comes that it waits for.
-/
namespace FieldReplica

variable {R : Type} [Row R]

/-- The mutation whose holder lets go of it, or whose submission ends, with an action. -/
def Action.releases? : Action R → Option Nat
  | .discard id | .submit id | .abort id | .reply id _ | .read id _ => some id
  | _ => none

/-- How a submission ends whose answer comes after the closing. -/
def MutationError.ofLate : Except AdapterError Txid → MutationError
  | .ok _ => .closed
  | .error e => .ofAdapter e

namespace Desk

variable {d : Desk R} {id : Nat}

/-- How a submission ends whose row comes after the closing: only what the stream has confirmed counts. -/
def lateRead (f : Flight R) : Except MutationError Outcome :=
  match f.signal with
  | some t => .ok (.confirmed f.key t)
  | none => .error .closed

/-! ### A closed desk -/

omit [Row R] in
private theorem find?_of_bare (h : ∀ key, d.record? key = none) (key : String) (id : Nat) :
    d.reconciler.find? key id = none := by
  cases hp : d.reconciler.find? key id with
  | none => rfl
  | some p => cases (h key).symm.trans (Reconciler.find?_eq_some.mp hp).1

/-- A closed reconciler takes no mutation. -/
theorem stage_of_closed (h : d.reconciler.closed = true) (fresh : String) (m : Mutation R) :
    d.stage fresh m = .error
      (if !Row.isMutable R && m.kind ≠ .insert then .unsupported (Row.table R) m.kind else .closed) := by
  have hstage : d.reconciler.stage fresh m = .error
      (if !Row.isMutable R && m.kind ≠ .insert then .unsupported (Row.table R) m.kind else .closed) := by
    rw [Reconciler.stage]
    split <;> rfl
  rw [stage,hstage]
  rfl

omit [Row R] in
theorem submit_of_shut (h : d.Shut) {s : Staged} (hs : s ∈ d.handles) :
    d.submit s.id = (d.discard s.id,[.resolved s.id (.error .closed)]) := by
  rw [submit]
  cases hfind : d.handles.find? (·.id = s.id) with
  | none =>
    rw [List.find?_eq_none] at hfind
    exact absurd (decide_eq_true rfl) (hfind s hs)
  | some s' =>
    have hrefused : (d.discard s.id).reconciler.beginSubmit s' = .error .closed := by
      have hnone : d.reconciler.find? s'.key s'.id = none := find?_of_bare h.bare _ _
      rw [Reconciler.beginSubmit]
      simp only [discard,hnone,h.closed,if_true]
    dsimp only
    rw [hrefused]

theorem reply_of_shut (h : d.Shut) {f : Flight R} (hf : d.find? f.id = some f) (hp : f.phase = .reply)
    (answer : Except AdapterError Txid) :
    d.reply f.id answer = (d.without f.id,[.resolved f.id (.error (.ofLate answer))]) := by
  obtain ⟨id,key,m,phase,signal⟩ := f
  obtain rfl : phase = .reply := hp
  have hnone : d.reconciler.find? key id = none := find?_of_bare h.bare key id
  dsimp only at hf ⊢
  rw [reply,hf]
  cases answer with
  | error e =>
    dsimp only
    rw [Reconciler.rollBack_of_none hnone]
    rfl
  | ok t =>
    have hclosed : d.reconciler.awaitTxid key id t = .error .closed := by
      rw [Reconciler.awaitTxid,hnone]
    dsimp only
    rw [hclosed]
    rfl

theorem read_of_shut (h : d.Shut) {f : Flight R} (hf : d.find? f.id = some f) {t : Txid}
    (hp : f.phase = .reading t) (answer : Except AdapterError (Option R)) :
    d.read f.id answer = (d.without f.id,[.resolved f.id (lateRead f)]) := by
  obtain ⟨id,key,m,phase,signal⟩ := f
  obtain rfl : phase = .reading t := hp
  dsimp only at hf ⊢
  rw [read,hf]
  cases signal with
  | some t => rfl
  | none =>
    have hnone : d.reconciler.find? key id = none := find?_of_bare h.bare key id
    dsimp only
    rw [Reconciler.settle_of_none hnone]
    rfl

omit [Row R] in
private theorem expire_of_shut (h : d.Shut) (id : Nat) : d.expire id = (d,[]) := by
  rw [expire]
  split
  · next hf => exact absurd rfl (h.released id _ _ _ hf)
  · rfl

private theorem remote_of_bare (h : ∀ key, d.record? key = none) (cs : List (RemoteChange R)) :
    d.remote cs = ({ d with reconciler := (d.reconciler.applyRemote cs).1 },[]) := by
  have hnone : (d.reconciler.applyRemote cs).2 = [] := by
    rw [Reconciler.applyRemote,Ledger.receiveAll_of_none h]
  rw [remote]
  dsimp only
  rw [hnone]
  rfl

private theorem snapshot_of_bare (h : ∀ key, d.record? key = none) (rows : List R) (resync : Bool) :
    d.snapshot rows resync = ({ d with reconciler := (d.reconciler.applySnapshot rows resync).1 },[]) := by
  have hnone : (d.reconciler.applySnapshot rows resync).2 = [] := by
    refine List.eq_nil_iff_forall_not_mem.mpr fun c hc => ?_
    obtain ⟨p,hp,_⟩ := Ledger.mem_reflectedBy.mp hc
    cases (h c.key).symm.trans hp
  rw [snapshot]
  dsimp only
  rw [hnone]
  rfl

/-- What happens at a closed desk: some of those who wait go away, and the reconciler notices nothing of it. -/
structure Dwindles (d : Desk R) (a : Action R) (d' : Desk R) (es : List (Effect R)) : Prop where
  reconciler : a.isLocal = true → d'.reconciler = d.reconciler
  handles : ∀ s ∈ d.handles, a.releases? ≠ some s.id → s ∈ d'.handles
  flights : ∀ f ∈ d.flights, a.releases? ≠ some f.id → f ∈ d'.flights
  ends : ∀ e ∈ es, ∃ id x, e = .resolved id x

omit [Row R] in
theorem Dwindles.refl (d : Desk R) (a : Action R) : d.Dwindles a d [] :=
  ⟨fun _ => rfl,fun _ h _ => h,fun _ h _ => h,List.forall_mem_nil _⟩

omit [Row R] in
private theorem dwindles_discard (d : Desk R) {a : Action R} (ha : a.releases? = some id) {es : List (Effect R)}
    (he : ∀ e ∈ es, ∃ id x, e = .resolved id x) : d.Dwindles a (d.discard id) es where
  reconciler _ := rfl
  handles s hs hne := by
    have hid : s.id ≠ id := by
      rintro rfl
      exact hne ha
    exact List.mem_filter.mpr ⟨hs,decide_eq_true hid⟩
  flights _ hf _ := hf
  ends := he

omit [Row R] in
private theorem dwindles_without (d : Desk R) {a : Action R} (ha : a.releases? = some id) {es : List (Effect R)}
    (he : ∀ e ∈ es, ∃ id x, e = .resolved id x) : d.Dwindles a (d.without id) es where
  reconciler _ := rfl
  handles _ hs _ := hs
  flights f hf hne := by
    have hid : f.id ≠ id := by
      rintro rfl
      exact hne ha
    exact List.mem_filter.mpr ⟨hf,decide_eq_true hid⟩
  ends := he

omit [Row R] in
private theorem dwindles_close (hs : d.Solo) (h : d.Shut) : d.Dwindles .close d.close.1 d.close.2 where
  reconciler ha := by cases ha
  handles _ hs _ := hs
  flights f hf _ := by
    refine List.mem_filter.mpr ⟨hf,?_⟩
    cases hp : f.phase with
    | confirmation t deadline => exact absurd hp (h.released f.id f t deadline (find?_of_mem hs hf))
    | reply | reading t => simp [hp]
  ends e he := by
    obtain ⟨f,_,rfl⟩ := List.mem_map.mp he
    exact ⟨f.id,_,rfl⟩

theorem dwindles_act (hs : d.Solo) (h : d.Shut) (a : Action R) : d.Dwindles a (d.act a).1 (d.act a).2 := by
  have hone : ∀ (i : Nat) (x : Except MutationError Outcome),
      ∀ e ∈ ([.resolved i x] : List (Effect R)), ∃ id x, e = .resolved id x := by
    intro i x e he
    exact ⟨i,x,List.mem_singleton.mp he⟩
  have hfeed : ∀ r, a.isLocal = false → d.Dwindles a { d with reconciler := r } [] := by
    intro r ha
    exact ⟨fun hlocal => absurd (ha.symm.trans hlocal) nofun,fun _ hs _ => hs,fun _ hf _ => hf,
      List.forall_mem_nil _⟩
  cases a with
  | stage fresh m =>
    rw [act,stage_of_closed h.closed]
    exact .refl d _
  | discard i => exact dwindles_discard d rfl (List.forall_mem_nil _)
  | abort i => exact dwindles_without d rfl (List.forall_mem_nil _)
  | advance ms => exact ⟨fun _ => rfl,fun _ hs _ => hs,fun _ hf _ => hf,List.forall_mem_nil _⟩
  | submit i =>
    by_cases hheld : ∃ s ∈ d.handles, s.id = i
    · obtain ⟨s,hs,rfl⟩ := hheld
      rw [act,submit_of_shut h hs]
      exact dwindles_discard d rfl (hone _ _)
    · rw [act,submit_of_unheld (fun s hs hid => hheld ⟨s,hs,hid⟩)]
      exact .refl d _
  | reply i answer =>
    by_cases hwaits : ∃ f, d.find? i = some f ∧ f.phase = .reply
    · obtain ⟨f,hf,hp⟩ := hwaits
      obtain rfl : f.id = i := id_of_find? hf
      rw [act,reply_of_shut h hf hp]
      exact dwindles_without d rfl (hone _ _)
    · rw [act,reply]
      split
      · next hf => exact absurd ⟨_,hf,rfl⟩ hwaits
      · exact .refl d _
  | expire i =>
    rw [act,expire_of_shut h]
    exact .refl d _
  | read i answer =>
    by_cases hwaits : ∃ f t, d.find? i = some f ∧ f.phase = .reading t
    · obtain ⟨f,t,hf,hp⟩ := hwaits
      obtain rfl : f.id = i := id_of_find? hf
      rw [act,read_of_shut h hf hp]
      exact dwindles_without d rfl (hone _ _)
    · rw [act,read]
      split
      · next hf => exact absurd ⟨_,_,hf,rfl⟩ hwaits
      · exact .refl d _
  | remote cs =>
    rw [act,remote_of_bare h.bare]
    exact hfeed _ rfl
  | snapshot rows resync =>
    rw [act,snapshot_of_bare h.bare]
    exact hfeed _ rfl
  | seed rows => exact hfeed _ rfl
  | close => exact dwindles_close hs h

omit [Row R] in
/-- Nobody waits for a transaction any more. -/
theorem Shut.unconfirmed (h : d.Shut) (hs : d.Solo) {f : Flight R} (hf : f ∈ d.flights) (t : Txid) (deadline : Nat) :
    f.phase ≠ .confirmation t deadline :=
  h.released f.id f t deadline (find?_of_mem hs hf)

omit [Row R] in
theorem Shut.pendingById (h : d.Shut) : d.reconciler.pendingById = [] := by
  have hempty : d.reconciler.ledger.pending = .empty := by
    apply Table.ext_find?
    intro key
    rw [Table.find?_empty]
    exact h.bare key
  rw [Reconciler.pendingById,hempty]
  exact List.mergeSort_nil

end Desk

namespace Collection

variable {c : Collection R}

/-! ### One submission for a mutation -/

private theorem flights_step (c : Collection R) (o : Occasion R) : (c.step o).desk.flights = c.desk.flights ∨
    ∃ a, (c.step o).desk.flights = (c.desk.step a).flights := by
  cases o with
  | rows answer =>
    left
    by_cases hf : c.feed = .seeding
    · cases answer with
      | ok rows => rw [step_rows_ok hf,desk_fetchNext]; rfl
      | error x => rw [step_rows_error hf,desk_fetchNext]
    · rw [step_rows_of_ne hf]
  | awaken =>
    left
    rcases step_awaken c with hs | ⟨_,hs⟩ <;> rw [hs]
  | desk a ha => exact .inr ⟨a,rfl⟩
  | close => exact .inr ⟨.close,rfl⟩
  | batch outcome =>
    by_cases hf : c.feed = .fetching
    · rcases hr : c.subscription.receive outcome with ⟨s,_ | e | x⟩
      · left
        rw [step_batch_of_proceed hf hr,desk_fetchNext]
      · rw [step_batch_of_deliver hf hr,desk_fetchNext]
        cases e with
        | snapshot rows resync => exact .inr ⟨.snapshot rows resync,rfl⟩
        | changes cs => exact .inr ⟨.remote cs,rfl⟩
        | upToDate | reconnecting n delay reason => exact .inl rfl
      · left
        rw [step_batch_of_failed hf hr]
        rfl
    · left
      rw [step_batch_of_ne hf]

theorem solo_step (hc : c.desk.Solo) (o : Occasion R) : (c.step o).desk.Solo := by
  rcases flights_step c o with h | ⟨a,h⟩
  · rw [Desk.Solo,h]
    exact hc
  · rw [Desk.Solo,h]
    exact Desk.solo_step hc a

theorem solo_opened (projectId : Int64) (options : CollectionOptions) (resume : Option Position) :
    (opened projectId options resume : Collection R).desk.Solo := by
  have hnone : (opened projectId options resume : Collection R).desk.flights = [] := by
    rw [opened,start.eq_def]
    dsimp only
    split
    · rfl
    · rw [desk_fetchNext]
      rfl
  rw [Desk.Solo,hnone]
  exact List.nodup_nil

/-! ### What stays done -/

/-- What may happen to a collection whose mutations have ended, as long as its feed does nothing. -/
structure Fades (c c' : Collection R) : Prop where
  shut : c'.desk.Shut
  channel : c'.store.channel = c.store.channel
  rows : c'.store.rows = c.store.rows ∨ c'.store.rows = .empty
  status : c'.status = c.status ∨ c'.status = .closed

omit [Row R] in
theorem Fades.refl (h : c.desk.Shut) : c.Fades c := ⟨h,rfl,.inl rfl,.inl rfl⟩

omit [Row R] in
theorem Fades.trans {c' c'' : Collection R} (h : c.Fades c') (h' : c'.Fades c'') : c.Fades c'' where
  shut := h'.shut
  channel := h'.channel.trans h.channel
  rows := by
    rcases h'.rows with he | he
    · rw [he]
      exact h.rows
    · exact .inr he
  status := by
    rcases h'.status with he | he
    · rw [he]
      exact h.status
    · exact .inr he

theorem fades_desk (hc : c.desk.Solo) (h : c.desk.Shut) {a : Action R} (ha : a.isLocal = true) :
    c.Fades (c.step (.desk a ha)) := by
  have hreconciler := (Desk.dwindles_act hc h a).reconciler ha
  have hstore : (c.step (.desk a ha)).store = c.store := congrArg Reconciler.store hreconciler
  exact ⟨Desk.shut_step hc h a,congrArg Store.channel hstore,.inl (congrArg Store.rows hstore),.inl rfl⟩

theorem shut_mutations (c : Collection R) : (c.closePart .mutations).1.desk.Shut := Desk.shut_close c.desk

theorem fades_closePart (h : c.desk.Shut) (p : ClosePart) : c.Fades (c.closePart p).1 := by
  cases p with
  | feed => exact ⟨h,rfl,.inl rfl,.inl rfl⟩
  | mutations => exact ⟨c.shut_mutations,rfl,.inl rfl,.inl rfl⟩
  | rows => exact ⟨⟨h.closed,h.bare,h.released⟩,rfl,.inr rfl,.inl rfl⟩
  | status => exact ⟨h,rfl,.inl rfl,.inr rfl⟩

/-- What has been done of a closing, when some of it is left. -/
structure Along (ended : Prop) (left : List ClosePart) (c : Collection R) : Prop where
  suffix : left <:+ ClosePart.all
  feed : .feed ∉ left → ended
  mutations : .mutations ∉ left → c.desk.Shut
  rows : .rows ∉ left → c.store.rows = .empty
  status : .status ∉ left → c.status = .closed

theorem ClosePart.left_cases {left : List ClosePart} (h : left <:+ ClosePart.all) : left = ClosePart.all ∨
    left = [.mutations,.rows,.status] ∨ left = [.rows,.status] ∨ left = [.status] ∨ left = [] := by
  simpa [ClosePart.all,List.suffix_cons_iff] using h

variable {ended : Prop} {left : List ClosePart}

omit [Row R] in
theorem along_all (ended : Prop) (c : Collection R) : Along ended ClosePart.all c where
  suffix := List.suffix_refl _
  feed h := absurd (by decide) h
  mutations h := absurd (by decide) h
  rows h := absurd (by decide) h
  status h := absurd (by decide) h

omit [Row R] in
theorem Along.imp {ended' : Prop} (h : Along ended left c) (himp : ended → ended') : Along ended' left c :=
  ⟨h.suffix,fun hl => himp (h.feed hl),h.mutations,h.rows,h.status⟩

omit [Row R] in
/-- The parts come in their order, so if any of them is done then the feed has ended. -/
theorem Along.ended_or_all (h : Along ended left c) : ended ∨ left = ClosePart.all := by
  rcases ClosePart.left_cases h.suffix with hl | rfl | rfl | rfl | rfl
  · exact .inr hl
  all_goals exact .inl (h.feed (by decide))

omit [Row R] in
/-- What is done stays done while the feed does nothing. -/
theorem Along.fade {c' : Collection R} (h : Along ended left c) (hfades : c.desk.Shut → c.Fades c') :
    Along ended left c' := by
  have hshut : .mutations ∉ left → c.Fades c' := fun hl => hfades (h.mutations hl)
  have hrows : .rows ∉ left → .mutations ∉ left := by
    rcases ClosePart.left_cases h.suffix with rfl | rfl | rfl | rfl | rfl <;> decide
  have hstatus : .status ∉ left → .mutations ∉ left := by
    rcases ClosePart.left_cases h.suffix with rfl | rfl | rfl | rfl | rfl <;> decide
  refine ⟨h.suffix,h.feed,fun hl => (hshut hl).shut,?_,?_⟩
  · intro hl
    rcases (hshut (hrows hl)).rows with he | he
    · exact he.trans (h.rows hl)
    · exact he
  · intro hl
    rcases (hshut (hstatus hl)).status with he | he
    · exact he.trans (h.status hl)
    · exact he

/-- The next part is done. -/
theorem Along.proceed {p : ClosePart} (h : Along ended (p::left) c) (hended : p = .feed → ended) :
    Along ended left (c.closePart p).1 := by
  have hkept : Along ended (p::left) (c.closePart p).1 := h.fade fun hshut => fades_closePart hshut p
  have hbefore : ∀ {q : ClosePart}, q ∉ left → q ≠ p → q ∉ p::left := fun hl hq =>
    List.not_mem_cons_of_ne_of_not_mem hq hl
  refine ⟨(List.suffix_cons p left).trans h.suffix,?_,?_,?_,?_⟩
  · intro hl
    by_cases hp : p = .feed
    · exact hended hp
    · exact hkept.feed (hbefore hl (Ne.symm hp))
  · intro hl
    by_cases hp : .mutations = p
    · subst hp
      exact c.shut_mutations
    · exact hkept.mutations (hbefore hl hp)
  · intro hl
    by_cases hp : .rows = p
    · subst hp
      rfl
    · exact hkept.rows (hbefore hl hp)
  · intro hl
    by_cases hp : .status = p
    · subst hp
      rfl
    · exact hkept.status (hbefore hl hp)

end Collection
end FieldReplica
