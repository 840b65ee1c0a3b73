import FieldReplica.Proofs.Waiting

/-!
# What an action does to a submission and to a record

A submission and a record of a desk that has taken an action were there before, perhaps not as far as they
are now, or the action has made them. Whatever a run keeps of them follows from these few ways.
-/
namespace FieldReplica

variable {R : Type} [Row R]

namespace Desk

variable {d : Desk R} {id : Nat} {key : String}

/-- What the stream confirms with an action. -/
def words (d : Desk R) : Action R → List Confirmation
  | .remote cs => (d.reconciler.applyRemote cs).2
  | .snapshot rows resync => (d.reconciler.applySnapshot rows resync).2
  | _ => []

/-- The mutation that an action stages, under its number. -/
def entrant? (d : Desk R) : Action R → Option (Nat × Mutation R)
  | .stage fresh m =>
    match d.stage fresh m with
    | .ok (_,.staged s) => some (s.id,Reconciler.withKey fresh m)
    | _ => none
  | _ => none

omit [Row R] in
/-- No mutation has two submissions under way. -/
def Solo (d : Desk R) : Prop := (d.flights.map (·.id)).Nodup

/-! ### Staging -/

/-- Staging fails, takes back an insertion that was not sent, or makes a record for a new mutation. -/
theorem stage_cases (d : Desk R) (fresh : String) (m : Mutation R) {n : Mutation R}
    (hn : Reconciler.withKey fresh m = n) :
    (d.step (.stage fresh m) = d ∧ d.entrant? (.stage fresh m) = none) ∨
    (∃ p, d.record? n.key = some p ∧ Reconciler.cancels n p = true ∧
      d.stage fresh m = .ok (d.step (.stage fresh m),.cancelled n.key) ∧
      d.entrant? (.stage fresh m) = none ∧
      d.step (.stage fresh m) = { d with reconciler := d.reconciler.retire n.key p.base }) ∨
    ∃ w, d.record? n.key = none ∧ d.reconciler.closed = false ∧
      d.entrant? (.stage fresh m) = some (d.reconciler.nextId,n) ∧
      d.step (.stage fresh m) = { d with
        reconciler := ({ d.reconciler with
          ledger := d.reconciler.ledger.put n.key
            ⟨d.reconciler.nextId,n,.staged,d.reconciler.store.get? n.key⟩
          nextId := d.reconciler.nextId + 1 } : Reconciler R).write [w]
        handles := d.handles ++ [⟨d.reconciler.nextId,n.key,n.kind⟩] } := by
  cases hs : d.stage fresh m with
  | error e => exact .inl ⟨by simp only [step,act,hs],by simp only [entrant?,hs]⟩
  | ok x =>
    obtain ⟨d',st⟩ := x
    obtain ⟨r,hr,hd'⟩ := stage_eq_ok hs
    have hstep : d.step (.stage fresh m) = d' := by simp only [step,act,hs]
    right
    obtain ⟨hopen,⟨p,hp,hcancel,hst,rfl⟩ | ⟨w,hp,_,hst,rfl⟩⟩ := Reconciler.stage_eq_ok hn hr
    · left
      subst hst
      exact ⟨p,hp,hcancel,by rw [hstep],by simp only [entrant?,hs],hstep.trans hd'⟩
    · right
      subst hst
      exact ⟨w,hp,hopen,by simp only [entrant?,hs,hn],hstep.trans hd'⟩

/-! ### Submissions -/

omit [Row R] in
theorem find?_of_mem (hd : d.Solo) {f : Flight R} (hf : f ∈ d.flights) : d.find? f.id = some f := by
  have hlist : ∀ fs : List (Flight R), (fs.map (·.id)).Nodup → f ∈ fs →
      fs.find? (·.id = f.id) = some f := by
    intro fs hfs hf
    induction fs with
    | nil => cases hf
    | cons g fs ih =>
      obtain ⟨hg,hfs⟩ := List.nodup_cons.mp hfs
      rcases List.mem_cons.mp hf with rfl | hf
      · simp
      · have hne : g.id ≠ f.id := fun h => hg (List.mem_map.mpr ⟨f,hf,h.symm⟩)
        rw [List.find?_cons_of_neg (by simpa using hne)]
        exact ih hfs hf
  exact hlist d.flights hd hf

omit [Row R] in
private theorem solo_without (hd : d.Solo) (i : Nat) : (d.without i).Solo :=
  List.Sublist.nodup (List.Sublist.map _ List.filter_sublist) hd

omit [Row R] in
private theorem solo_requeue (hd : d.Solo) (f : Flight R) : (d.requeue f).Solo := by
  have happend : (d.requeue f).flights.map (·.id) = (d.without f.id).flights.map (·.id) ++ [f.id] :=
    List.map_append
  rw [Solo,happend]
  refine List.nodup_append.mpr ⟨solo_without hd f.id,List.nodup_singleton _,?_⟩
  intro i hi j hj
  obtain ⟨g,hg,rfl⟩ := List.mem_map.mp hi
  have hne : g.id ≠ f.id := of_decide_eq_true (List.mem_filter.mp hg).2
  rw [List.mem_singleton.mp hj]
  exact hne

omit [Row R] in
private theorem solo_wake (hd : d.Solo) (cs : List Confirmation) : (d.wake cs).1.Solo := by
  induction cs generalizing d with
  | nil => exact hd
  | cons c cs ih =>
    have hone : (d.wakeOne c).1.Solo := by
      rw [wakeOne]
      split
      · exact solo_without hd c.id
      · have hids : ∀ fs : List (Flight R),
            (fs.map fun f => if f.id = c.id then { f with signal := some c.txid } else f).map (·.id) =
              fs.map (·.id) := by
          intro fs
          rw [List.map_map]
          apply List.map_congr_left
          intro f _
          simp only [Function.comp]
          split <;> rfl
        rw [Solo,hids]
        exact hd
      · exact hd
    exact ih hone

theorem solo_step (hd : d.Solo) (a : Action R) : (d.step a).Solo := by
  cases a with
  | stage fresh m =>
    rcases stage_cases d fresh m rfl with ⟨h,_⟩ | ⟨p,_,_,_,_,h⟩ | ⟨w,_,_,_,h⟩ <;> rw [h] <;>
      exact hd
  | discard i | advance ms | seed rows => exact hd
  | submit i =>
    rw [step,act,submit]
    split
    · exact hd
    · dsimp only
      split
      · exact hd
      · exact hd
      · exact solo_requeue hd _
  | abort i => exact solo_without hd i
  | reply i answer =>
    rw [step,act,reply]
    split
    · split
      · exact solo_without hd _
      · split
        · exact solo_without hd _
        · exact solo_without hd _
        · exact solo_requeue hd _
    · exact hd
  | expire i =>
    rw [step,act,expire]
    split
    · split
      · exact solo_requeue hd _
      · exact hd
    · exact hd
  | read i answer =>
    rw [step,act,read]
    split
    · split
      · exact solo_without hd _
      · exact solo_without hd _
    · exact hd
  | remote cs => exact solo_wake (d := { d with reconciler := (d.reconciler.applyRemote cs).1 }) hd _
  | snapshot rows resync =>
    exact solo_wake (d := { d with reconciler := (d.reconciler.applySnapshot rows resync).1 }) hd _
  | close => exact List.Sublist.nodup (List.Sublist.map _ List.filter_sublist) hd

omit [Row R] in
/-- A submission that waits for the server's answer does not hear the stream. -/
theorem wake_of_reply {f : Flight R} (hf : d.find? id = some f) (hp : f.phase = .reply)
    (cs : List Confirmation) : (d.wake cs).1.find? id = some f ∧ results id (d.wake cs).2 = [] := by
  induction cs generalizing d with
  | nil => exact ⟨hf,rfl⟩
  | cons c cs ih =>
    have hone : (d.wakeOne c).1.find? id = some f ∧ results id (d.wakeOne c).2 = [] := by
      by_cases hid : id = c.id
      · subst hid
        obtain ⟨i,key,m,phase,signal⟩ := f
        obtain rfl : phase = _ := hp
        have hsame : d.wakeOne c = (d,[]) := by simp only [wakeOne,hf]
        rw [hsame]
        exact ⟨hf,rfl⟩
      · rw [(hides_wakeOne d hid).1,(hides_wakeOne d hid).2]
        exact ⟨hf,rfl⟩
    obtain ⟨hfind,hresults⟩ := ih hone.1
    exact ⟨hfind,by rw [wake,results_append,hone.2,hresults]; rfl⟩

omit [Row R] in
private theorem find?_wake {cs : List Confirmation} {f' : Flight R} (h : (d.wake cs).1.find? id = some f') :
    d.find? id = some f' ∨ ∃ f, d.find? id = some f ∧ f.isReading ∧ ∃ c ∈ cs, c.id = id ∧
      f' = { f with signal := some c.txid } := by
  cases hf : d.find? id with
  | none =>
    rw [(wake_of_none hf cs).1] at h
    cases h
  | some f =>
    by_cases hc : ∃ c ∈ cs, c.id = id
    · cases hp : f.phase with
      | confirmation t deadline =>
        rw [(wake_of_confirmation hf hp hc).1] at h
        cases h
      | reading t =>
        obtain ⟨_,c,hcs,hid,hfind⟩ := wake_of_reading hf hp hc
        rw [hfind] at h
        have hreading : f.isReading = true := by rw [Flight.isReading,hp]
        exact .inr ⟨f,rfl,hreading,c,hcs,hid,(Option.some.inj h).symm⟩
      | reply =>
        left
        rw [← h]
        exact (wake_of_reply hf hp cs).1.symm
    · rw [(wake_of_absent fun c hcs hid => hc ⟨c,hcs,hid⟩).1,hf] at h
      exact .inl h

/-- The ways in which a submission comes to be what it is after an action. -/
inductive Flown (d : Desk R) (id : Nat) : Action R → Flight R → Prop
  | begun {s : Staged} {p : Pending R} : s ∈ d.handles → s.id = id → d.record? s.key = some p →
      p.id = id → Flown d id (.submit id) ⟨id,s.key,p.mutation,.reply,none⟩
  | kept {a : Action R} {f : Flight R} : d.find? id = some f → Flown d id a f
  | accepted {f : Flight R} {p : Pending R} {t : Txid} : d.find? id = some f → f.phase = .reply →
      d.record? f.key = some p → p.id = id →
      Flown d id (.reply id (.ok t)) { f with phase := .confirmation t (d.now + d.timeout) }
  | expired {f : Flight R} {t : Txid} {deadline : Nat} : d.find? id = some f →
      f.phase = .confirmation t deadline → deadline ≤ d.now →
      Flown d id (.expire id) { f with phase := .reading t }
  | told {a : Action R} {f : Flight R} {c : Confirmation} : d.find? id = some f → f.isReading →
      c ∈ d.words a → c.id = id → Flown d id a { f with signal := some c.txid }

omit [Row R] in
private theorem find?_of_find?_without {i : Nat} {f : Flight R} (h : (d.without i).find? id = some f) :
    d.find? id = some f := by
  rw [find?_without] at h
  split at h
  · cases h
  · exact h

private theorem flown_of_wake {a : Action R} {r : Reconciler R} {f' : Flight R}
    (h : (({ d with reconciler := r } : Desk R).wake (d.words a)).1.find? id = some f') :
    d.Flown id a f' := by
  rcases find?_wake h with hf | ⟨f,hf,hreading,c,hc,hid,rfl⟩
  · exact .kept hf
  · exact .told hf hreading hc hid

private theorem flown_submit {f' : Flight R} (h : (d.submit id).1.find? id = some f') :
    d.Flown id (.submit id) f' := by
  rw [submit] at h
  split at h
  · exact .kept h
  · next s hs =>
    have hid : s.id = id := by simpa using List.find?_some hs
    dsimp only at h
    split at h
    · exact .kept h
    · exact .kept h
    · next r m hr =>
      rw [find?_requeue,if_pos rfl] at h
      rcases Reconciler.beginSubmit_eq_ok hr with ⟨p,hp,hpid,hm,_⟩ | ⟨_,_,hm,_⟩
      · cases hm
        rw [← Option.some.inj h]
        exact .begun (List.mem_of_find?_eq_some hs) hid hp (hpid.trans hid)
      · cases hm

private theorem flown_reply {answer : Except AdapterError Txid} {f' : Flight R}
    (h : (d.reply id answer).1.find? id = some f') : d.Flown id (.reply id answer) f' := by
  rw [reply] at h
  split at h
  · next i key m signal hf =>
    obtain rfl : i = id := id_of_find? hf
    cases answer with
    | error e => exact .kept (find?_of_find?_without h)
    | ok t =>
      dsimp only at h
      split at h
      · exact .kept (find?_of_find?_without h)
      · exact .kept (find?_of_find?_without h)
      · next r hr =>
        obtain ⟨p,hp,hid,_⟩ := Reconciler.awaitTxid_eq_ok hr
        rw [find?_requeue,if_pos rfl] at h
        rw [← Option.some.inj h]
        exact .accepted hf rfl hp hid
  · exact .kept h

private theorem flown_expire {f' : Flight R} (h : (d.expire id).1.find? id = some f') :
    d.Flown id (.expire id) f' := by
  rw [expire] at h
  split at h
  · next i key m t deadline signal hf =>
    obtain rfl : i = id := id_of_find? hf
    split at h
    · next hdue =>
      rw [find?_requeue,if_pos rfl] at h
      rw [← Option.some.inj h]
      exact .expired hf rfl hdue
    · exact .kept h
  · exact .kept h

private theorem flown_read {answer : Except AdapterError (Option R)} {f' : Flight R}
    (h : (d.read id answer).1.find? id = some f') : d.Flown id (.read id answer) f' := by
  rw [read] at h
  split at h
  · split at h
    · exact .kept (find?_of_find?_without h)
    · exact .kept (find?_of_find?_without h)
  · exact .kept h

theorem flown_step (hd : d.Solo) {a : Action R} {f' : Flight R} (h : (d.step a).find? id = some f') :
    d.Flown id a f' := by
  have hother : ∀ i, a.subject? = some i → id ≠ i → d.Flown id a f' := by
    intro i hi hne
    rw [(hides_step hi hne).1.flight] at h
    exact .kept h
  cases a with
  | stage fresh m =>
    have hsame : d.find? id = some f' := by
      rcases stage_cases d fresh m rfl with ⟨hs,_⟩ | ⟨p,_,_,_,_,hs⟩ | ⟨w,_,_,_,hs⟩ <;>
        rw [hs] at h <;> exact h
    exact .kept hsame
  | discard i | advance ms | seed rows => exact .kept h
  | submit i =>
    by_cases hid : id = i
    · subst hid; exact flown_submit h
    · exact hother i rfl hid
  | abort i => exact .kept (find?_of_find?_without h)
  | reply i answer =>
    by_cases hid : id = i
    · subst hid; exact flown_reply h
    · exact hother i rfl hid
  | expire i =>
    by_cases hid : id = i
    · subst hid; exact flown_expire h
    · exact hother i rfl hid
  | read i answer =>
    by_cases hid : id = i
    · subst hid; exact flown_read h
    · exact hother i rfl hid
  | remote cs => exact flown_of_wake (a := .remote cs) h
  | snapshot rows resync => exact flown_of_wake (a := .snapshot rows resync) h
  | close =>
    have hmem : f' ∈ d.flights := (List.mem_filter.mp (List.mem_of_find?_eq_some h)).1
    have hid : f'.id = id := id_of_find? h
    rw [← hid]
    exact .kept (find?_of_mem hd hmem)

/-! ### The reconciler -/

/-- An action on one mutation leaves the reconciler as it is, moves the record of the mutation on, or retires
the record with a word on its key. -/
inductive Handled (d : Desk R) (id : Nat) : Reconciler R → Prop
  | same : Handled d id d.reconciler
  | moved {k : String} {p : Pending R} (g : Progress) : d.record? k = some p → p.id = id →
      Handled d id { d.reconciler with ledger := d.reconciler.ledger.put k { p with progress := g } }
  | ruled {k : String} {p : Pending R} {e : Event R} (v : Option R) : d.record? k = some p → p.id = id →
      (∀ key, e.isVerdict key = decide (k = key)) → Handled d id ((d.reconciler.retire k v).notify e)

private theorem handled_submit (d : Desk R) (id : Nat) : d.Handled id (d.submit id).1.reconciler := by
  rw [submit]
  split
  · exact .same
  · next s hs =>
    have hid : s.id = id := by simpa using List.find?_some hs
    dsimp only
    split
    · exact .same
    · exact .same
    · next r m hr =>
      rcases Reconciler.beginSubmit_eq_ok hr with ⟨p,hp,hpid,_,rfl⟩ | ⟨_,_,_,rfl⟩
      · exact .moved .submitted hp (hpid.trans hid)
      · exact .same

private theorem handled_reply (d : Desk R) (id : Nat) (answer : Except AdapterError Txid) :
    d.Handled id (d.reply id answer).1.reconciler := by
  rcases reconciler_reply d id answer with hr | ⟨k,e,hr⟩ | ⟨k,t,b,hr⟩
  · rw [hr]
    exact .same
  · rw [hr]
    cases hp : d.reconciler.find? k id with
    | none =>
      rw [Reconciler.rollBack_of_none hp]
      exact .same
    | some p =>
      obtain ⟨hrecord,hid⟩ := Reconciler.find?_eq_some.mp hp
      rw [Reconciler.rollBack_of_some hp]
      exact .ruled p.base hrecord hid fun _ => rfl
  · obtain ⟨p,hp,hid,_,hr⟩ := Reconciler.awaitTxid_eq_ok hr
    rw [hr]
    split
    · exact .ruled p.base hp hid fun _ => rfl
    · exact .moved (.awaiting t) hp hid

private theorem handled_read (d : Desk R) (id : Nat) (answer : Except AdapterError (Option R)) :
    d.Handled id (d.read id answer).1.reconciler := by
  rcases reconciler_read d id answer with hr | ⟨f,t,_,_,_,hr⟩
  · rw [hr]
    exact .same
  · rw [hr]
    cases hp : d.reconciler.find? f.key id with
    | none =>
      rw [Reconciler.settle_of_none hp]
      exact .same
    | some p =>
      obtain ⟨hrecord,hid⟩ := Reconciler.find?_eq_some.mp hp
      rw [Reconciler.settle_of_some hp]
      exact .ruled _ hrecord hid fun _ => Reconciler.isVerdict_event

theorem handled_step {a : Action R} (ha : a.subject? = some id) : d.Handled id (d.step a).reconciler := by
  cases a with
  | discard i | abort i => exact .same
  | expire i =>
    have hsame : (d.step (.expire i)).reconciler = d.reconciler := reconciler_expire d i
    rw [hsame]
    exact .same
  | submit i => cases ha; exact handled_submit d id
  | reply i answer => cases ha; exact handled_reply d id answer
  | read i answer => cases ha; exact handled_read d id answer
  | stage fresh m | advance ms | remote cs | snapshot rows resync | seed rows | close => cases ha

/-! ### Records -/

/-- The ways in which a record comes to be what it is after an action. -/
inductive Recorded (d : Desk R) (key : String) : Action R → Pending R → Prop
  | made {fresh : String} {m : Mutation R} : d.record? key = none →
      (Reconciler.withKey fresh m).key = key →
      d.entrant? (.stage fresh m) = some (d.reconciler.nextId,Reconciler.withKey fresh m) →
      Recorded d key (.stage fresh m)
        ⟨d.reconciler.nextId,Reconciler.withKey fresh m,.staged,d.reconciler.store.get? key⟩
  | kept {a : Action R} {p : Pending R} (base : Option R) : d.record? key = some p →
      Recorded d key a { p with base := base }
  | sent {s : Staged} {p : Pending R} : s ∈ d.handles → s.key = key → d.record? key = some p →
      p.id = s.id → Recorded d key (.submit s.id) { p with progress := .submitted }
  | accepted {f : Flight R} {p : Pending R} {t : Txid} : d.find? p.id = some f → f.phase = .reply →
      f.key = key → d.record? key = some p →
      Recorded d key (.reply p.id (.ok t)) { p with progress := .awaiting t }

private theorem recorded_of_eq {a : Action R} {p' : Pending R} (h : d.record? key = some p') :
    d.Recorded key a p' := .kept p'.base h

private theorem recorded_of_erase {a : Action R} {k : String} {p' : Pending R}
    (h : (d.reconciler.ledger.pending.erase k).find? key = some p') : d.Recorded key a p' := by
  rw [Table.find?_erase_of] at h
  split at h
  · cases h
  · exact recorded_of_eq h

private theorem recorded_stage {fresh : String} {m : Mutation R} {p' : Pending R}
    (h : (d.step (.stage fresh m)).record? key = some p') : d.Recorded key (.stage fresh m) p' := by
  rcases stage_cases d fresh m rfl with ⟨hs,_⟩ | ⟨p,_,_,_,_,hs⟩ | ⟨w,hn,_,he,hs⟩
  · rw [hs] at h
    exact recorded_of_eq h
  · rw [hs] at h
    exact recorded_of_erase h
  · rw [hs] at h
    have hput : (d.reconciler.ledger.pending.insert (Reconciler.withKey fresh m).key
        ⟨d.reconciler.nextId,Reconciler.withKey fresh m,.staged,
          d.reconciler.store.get? (Reconciler.withKey fresh m).key⟩).find? key = some p' := h
    rw [Table.find?_insert_of] at hput
    split at hput
    · next hk =>
      rw [← Option.some.inj hput,← hk]
      exact .made (hk ▸ hn) hk.symm he
    · exact recorded_of_eq hput

private theorem recorded_submit {i : Nat} {p' : Pending R} (h : (d.submit i).1.record? key = some p') :
    d.Recorded key (.submit i) p' := by
  rw [submit] at h
  split at h
  · exact recorded_of_eq h
  · next s hs =>
    obtain rfl : s.id = i := by simpa using List.find?_some hs
    dsimp only at h
    split at h
    · exact recorded_of_eq h
    · exact recorded_of_eq h
    · next r m hr =>
      rcases Reconciler.beginSubmit_eq_ok hr with ⟨p,hp,hpid,_,rfl⟩ | ⟨_,_,_,rfl⟩
      · have hput : (d.reconciler.ledger.pending.insert s.key { p with progress := .submitted }).find? key =
            some p' := h
        rw [Table.find?_insert_of] at hput
        split at hput
        · next hk =>
          subst hk
          rw [← Option.some.inj hput]
          exact .sent (List.mem_of_find?_eq_some hs) rfl hp hpid
        · exact recorded_of_eq hput
      · exact recorded_of_eq h

private theorem recorded_reply {i : Nat} {answer : Except AdapterError Txid} {p' : Pending R}
    (h : (d.reply i answer).1.record? key = some p') : d.Recorded key (.reply i answer) p' := by
  rw [reply] at h
  split at h
  · next i' k m signal hf =>
    obtain rfl : i' = i := id_of_find? hf
    cases answer with
    | error e =>
      have hrolled : (d.reconciler.rollBack k i' (.ofAdapter e)).ledger.pending.find? key = some p' := h
      cases hp : d.reconciler.find? k i' with
      | none =>
        rw [Reconciler.rollBack_of_none hp] at hrolled
        exact recorded_of_eq hrolled
      | some p =>
        rw [Reconciler.rollBack_of_some hp] at hrolled
        exact recorded_of_erase hrolled
    | ok t =>
      dsimp only at h
      have hawait : ∀ r b, d.reconciler.awaitTxid k i' t = .ok (r,b) →
          r.ledger.pending.find? key = some p' → d.Recorded key (.reply i' (.ok t)) p' := by
        intro r b hr hfind
        obtain ⟨p,hp,rfl,_,rfl⟩ := Reconciler.awaitTxid_eq_ok hr
        split at hfind
        · exact recorded_of_erase hfind
        · have hput : (d.reconciler.ledger.pending.insert k { p with progress := .awaiting t }).find? key =
              some p' := hfind
          rw [Table.find?_insert_of] at hput
          split at hput
          · next hk =>
            subst hk
            rw [← Option.some.inj hput]
            exact .accepted hf rfl rfl hp
          · exact recorded_of_eq hput
      split at h
      · exact recorded_of_eq h
      · next r hr => exact hawait r true hr h
      · next r hr => exact hawait r false hr h
  · exact recorded_of_eq h

private theorem recorded_read {i : Nat} {answer : Except AdapterError (Option R)} {p' : Pending R}
    (h : (d.read i answer).1.record? key = some p') : d.Recorded key (.read i answer) p' := by
  rw [record?] at h
  rcases reconciler_read d i answer with hr | ⟨f,t,_,_,_,hr⟩
  · rw [hr] at h
    exact recorded_of_eq h
  · rw [hr] at h
    cases hp : d.reconciler.find? f.key i with
    | none =>
      rw [Reconciler.settle_of_none hp] at h
      exact recorded_of_eq h
    | some p =>
      rw [Reconciler.settle_of_some hp] at h
      exact recorded_of_erase h

private theorem recorded_remote {cs : List (RemoteChange R)} {p' : Pending R}
    (h : (d.step (.remote cs)).record? key = some p') : d.Recorded key (.remote cs) p' := by
  have hfind : (d.reconciler.ledger.receiveAll cs).ledger.pending.find? key = some p' :=
    (congrArg (·.ledger.pending.find? key) (reconciler_remote d cs)).symm.trans h
  cases hp : d.reconciler.ledger.pending.find? key with
  | none =>
    rw [(Ledger.receiveAll_of_absent hp cs).1] at hfind
    cases hfind
  | some p =>
    rcases Ledger.receiveAll_of_present hp cs with ⟨t,_,_,hn,_⟩ | ⟨_,⟨base,hb⟩,_⟩
    · rw [hn] at hfind
      cases hfind
    · rw [hb] at hfind
      rw [← Option.some.inj hfind]
      exact .kept base hp

private theorem recorded_snapshot {rows : List R} {resync : Bool} {p' : Pending R}
    (h : (d.step (.snapshot rows resync)).record? key = some p') :
    d.Recorded key (.snapshot rows resync) p' := by
  have hfind : (d.reconciler.ledger.rebase (imageOf rows)).pending.find? key = some p' := by
    rw [← Reconciler.ledger_applySnapshot]
    exact (congrArg (·.ledger.pending.find? key) (reconciler_snapshot d rows resync)).symm.trans h
  obtain ⟨p,hp,_,rfl⟩ := Ledger.find?_rebase_eq_some.mp hfind
  exact .kept _ hp

theorem recorded_step {a : Action R} {p' : Pending R} (h : (d.step a).record? key = some p') :
    d.Recorded key a p' := by
  cases a with
  | stage fresh m => exact recorded_stage h
  | discard i | abort i | advance ms | seed rows => exact recorded_of_eq h
  | submit i => exact recorded_submit h
  | reply i answer => exact recorded_reply h
  | expire i =>
    rw [record?] at h
    exact recorded_of_eq ((congrArg (·.ledger.pending.find? key) (reconciler_expire d i)).symm.trans h)
  | read i answer => exact recorded_read h
  | remote cs => exact recorded_remote h
  | snapshot rows resync => exact recorded_snapshot h
  | close => cases h

/-! ### Holders and the clock -/

omit [Row R] in
/-- Nobody has got hold of a mutation, and the clock has not gone back. -/
structure Frame (d d' : Desk R) : Prop where
  timeout : d'.timeout = d.timeout
  now : d.now ≤ d'.now
  handles : ∀ s ∈ d'.handles, s ∈ d.handles

omit [Row R] in
theorem Frame.refl (d : Desk R) : Frame d d := ⟨rfl,Nat.le_refl _,fun _ h => h⟩

omit [Row R] in
private theorem frame_wake (d : Desk R) (cs : List Confirmation) : Frame d (d.wake cs).1 := by
  induction cs generalizing d with
  | nil => exact .refl d
  | cons c cs ih =>
    obtain ⟨htimeout,hnow,hhandles⟩ := ih (d.wakeOne c).1
    have hone : Frame d (d.wakeOne c).1 := by
      rw [wakeOne]
      split <;> exact ⟨rfl,Nat.le_refl _,fun _ h => h⟩
    exact ⟨htimeout.trans hone.timeout,Nat.le_trans hone.now hnow,
      fun s hs => hone.handles s (hhandles s hs)⟩

theorem frame_step {a : Action R} (ha : d.entrant? a = none) : Frame d (d.step a) := by
  cases a with
  | stage fresh m =>
    rcases stage_cases d fresh m rfl with ⟨h,_⟩ | ⟨p,_,_,_,_,h⟩ | ⟨w,_,_,he,_⟩
    · rw [h]; exact .refl d
    · rw [h]; exact ⟨rfl,Nat.le_refl _,fun _ h => h⟩
    · cases ha.symm.trans he
  | discard i => exact ⟨rfl,Nat.le_refl _,fun s hs => (List.mem_filter.mp hs).1⟩
  | abort i | seed rows | close => exact ⟨rfl,Nat.le_refl _,fun _ h => h⟩
  | advance ms => exact ⟨rfl,Nat.le_add_right _ _,fun _ h => h⟩
  | submit i =>
    rw [step,act,submit]
    split
    · exact .refl d
    · dsimp only
      split <;> exact ⟨rfl,Nat.le_refl _,fun s hs => (List.mem_filter.mp hs).1⟩
  | reply i answer =>
    rw [step,act,reply]
    split
    · split
      · exact ⟨rfl,Nat.le_refl _,fun _ h => h⟩
      · split <;> exact ⟨rfl,Nat.le_refl _,fun _ h => h⟩
    · exact .refl d
  | expire i =>
    rw [step,act,expire]
    split
    · split <;> exact ⟨rfl,Nat.le_refl _,fun _ h => h⟩
    · exact .refl d
  | read i answer =>
    rw [step,act,read]
    split
    · split <;> exact ⟨rfl,Nat.le_refl _,fun _ h => h⟩
    · exact .refl d
  | remote cs =>
    obtain ⟨ht,hn,hh⟩ := frame_wake { d with reconciler := (d.reconciler.applyRemote cs).1 }
      (d.words (.remote cs))
    exact ⟨ht,hn,hh⟩
  | snapshot rows resync =>
    obtain ⟨ht,hn,hh⟩ := frame_wake { d with reconciler := (d.reconciler.applySnapshot rows resync).1 }
      (d.words (.snapshot rows resync))
    exact ⟨ht,hn,hh⟩

theorem clock_step (d : Desk R) (a : Action R) :
    (d.step a).timeout = d.timeout ∧ d.now ≤ (d.step a).now := by
  cases he : d.entrant? a with
  | none => exact ⟨(frame_step he).timeout,(frame_step he).now⟩
  | some e =>
    cases a with
    | stage fresh m =>
      rcases stage_cases d fresh m rfl with ⟨h,_⟩ | ⟨p,_,_,_,_,h⟩ | ⟨w,_,_,_,h⟩ <;>
        rw [h] <;> exact ⟨rfl,Nat.le_refl _⟩
    | _ => cases he

/-- Only staging gives a holder a mutation, and the mutation is a new one. -/
theorem mem_handles_step {a : Action R} {s : Staged} (h : s ∈ (d.step a).handles) : s ∈ d.handles ∨
    ∃ m, d.entrant? a = some (s.id,m) ∧ m.key = s.key ∧ s.id = d.reconciler.nextId := by
  cases he : d.entrant? a with
  | none => exact .inl ((frame_step he).handles s h)
  | some e =>
    cases a with
    | stage fresh m =>
      rcases stage_cases d fresh m rfl with ⟨_,hn⟩ | ⟨p,_,_,_,hn,_⟩ | ⟨w,_,_,hs,hstep⟩
      · cases hn.symm.trans he
      · cases hn.symm.trans he
      · rw [hstep] at h
        rcases List.mem_append.mp h with h | h
        · exact .inl h
        · obtain rfl := Option.some.inj (hs.symm.trans he)
          rw [List.mem_singleton.mp h]
          exact .inr ⟨_,rfl,rfl,rfl⟩
    | _ => cases he

end Desk
end FieldReplica
