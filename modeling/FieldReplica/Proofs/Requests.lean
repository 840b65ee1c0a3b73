import FieldReplica.Proofs.Confirmation
import FieldReplica.Proofs.Roster

/-!
# What a desk asks of the server

A mutation is submitted once, and only when no mutation of its key that was submitted before is pending
any more. The row of a key is asked for once, when a mutation that the server accepted has waited for its
transaction all the time that it is given.
-/
namespace FieldReplica

variable {R : Type}

/-- The mutations that some effects submit. -/
def sent (es : List (Effect R)) : List (Mutation R) :=
  es.filterMap fun
    | .submit m => some m
    | .fetchRow _ | .resolved _ _ => none

/-- The keys whose rows some effects ask for. -/
def asked (es : List (Effect R)) : List String :=
  es.filterMap fun
    | .fetchRow key => some key
    | .submit _ | .resolved _ _ => none

variable [Row R]

namespace Desk

variable {d : Desk R} {id : Nat} {key : String} {t : Txid}

/-- What an action submits, under the mutation's number. -/
def sending (d : Desk R) : Action R → List (Nat × Mutation R)
  | .submit id => (sent (d.submit id).2).map (id,·)
  | _ => []

/-- The row that an action asks for, under the mutation's number. -/
def reading (d : Desk R) : Action R → List (Nat × String)
  | .expire id => (asked (d.expire id).2).map (id,·)
  | _ => []

def sendings (d : Desk R) (as : List (Action R)) : List (Nat × Mutation R) := d.gather sending as

def readings (d : Desk R) (as : List (Action R)) : List (Nat × String) := d.gather reading as

omit [Row R] in
private theorem quiet_wake (d : Desk R) (cs : List Confirmation) :
    sent (d.wake cs).2 = [] ∧ asked (d.wake cs).2 = [] := by
  induction cs generalizing d with
  | nil => exact ⟨rfl,rfl⟩
  | cons c cs ih =>
    have hone : sent (d.wakeOne c).2 = [] ∧ asked (d.wakeOne c).2 = [] := by
      rw [wakeOne]
      split <;> exact ⟨rfl,rfl⟩
    obtain ⟨hsent,hasked⟩ := ih (d.wakeOne c).1
    rw [wake,sent,asked,List.filterMap_append,List.filterMap_append]
    exact ⟨List.append_eq_nil_iff.mpr ⟨hone.1,hsent⟩,List.append_eq_nil_iff.mpr ⟨hone.2,hasked⟩⟩

/-- Only the submission of a mutation submits it, and only a deadline asks for a row. -/
theorem requests_act (d : Desk R) (a : Action R) :
    sent (d.act a).2 = (d.sending a).map (·.2) ∧ asked (d.act a).2 = (d.reading a).map (·.2) := by
  cases a with
  | stage fresh m =>
    rw [act]
    split <;> exact ⟨rfl,rfl⟩
  | discard i | abort i | advance ms | seed rows => exact ⟨rfl,rfl⟩
  | submit i =>
    refine ⟨by simp [act,sending,Function.comp_def],?_⟩
    rw [act,submit]
    split
    · rfl
    · dsimp only
      split <;> rfl
  | reply i answer =>
    rw [act,reply]
    split
    · split
      · exact ⟨rfl,rfl⟩
      · split <;> exact ⟨rfl,rfl⟩
    · exact ⟨rfl,rfl⟩
  | expire i =>
    refine ⟨?_,by simp [act,reading,Function.comp_def]⟩
    rw [act,expire]
    split
    · split <;> rfl
    · rfl
  | read i answer =>
    rw [act,read]
    split
    · split <;> exact ⟨rfl,rfl⟩
    · exact ⟨rfl,rfl⟩
  | remote cs => exact quiet_wake _ _
  | snapshot rows resync => exact quiet_wake _ _
  | close => simp [act,close,releaseWaiting,sent,asked,sending,reading]

private theorem requests_effects (d : Desk R) (as : List (Action R)) :
    sent (d.effects as) = (d.sendings as).map (·.2) ∧ asked (d.effects as) = (d.readings as).map (·.2) := by
  induction as generalizing d with
  | nil => exact ⟨rfl,rfl⟩
  | cons a as ih =>
    obtain ⟨hsent,hasked⟩ := requests_act d a
    obtain ⟨hrest,hrest'⟩ := ih (d.step a)
    constructor
    · rw [effects,sent,List.filterMap_append,sendings,gather,List.map_append]
      exact congrArg₂ _ hsent hrest
    · rw [effects,asked,List.filterMap_append,readings,gather,List.map_append]
      exact congrArg₂ _ hasked hrest'

/-! ### Submitting -/

/-- A mutation is submitted by its holder, who lets go of it, and its record says so. -/
theorem sending_cases (d : Desk R) (a : Action R) : d.sending a = [] ∨
    ∃ s ∈ d.handles, ∃ p, d.record? s.key = some p ∧ p.id = s.id ∧ a = .submit s.id ∧
      d.sending a = [(s.id,p.mutation)] ∧ (∀ s' ∈ (d.step a).handles, s'.id ≠ s.id) ∧
      (d.step a).record? s.key = some { p with progress := .submitted } := by
  cases a with
  | submit i =>
    rw [step,act,sending,submit]
    split
    · exact .inl rfl
    · next s hs =>
      obtain rfl : s.id = i := by simpa using List.find?_some hs
      have hmem : s ∈ d.handles := List.mem_of_find?_eq_some hs
      have hunheld : ∀ s' ∈ (d.discard s.id).handles, s'.id ≠ s.id := fun s' hs' =>
        of_decide_eq_true (List.mem_filter.mp hs').2
      dsimp only
      split
      · exact .inl rfl
      · exact .inl rfl
      · next r m hr =>
        rcases Reconciler.beginSubmit_eq_ok hr with ⟨p,hp,hid,hm,rfl⟩ | ⟨_,_,hx,_⟩
        · cases hm
          exact .inr ⟨s,hmem,p,hp,hid,rfl,rfl,hunheld,Table.find?_insert_self _ _ _⟩
        · cases hx
  | stage fresh m | discard i | abort i | reply i answer | expire i | read i answer | advance ms | remote cs
  | snapshot rows resync | seed rows | close => exact .inl rfl

/-- A mutation that was submitted: nobody holds it, and its record is no longer that of one which waits to
be. -/
structure Sent (d : Desk R) (id : Nat) : Prop where
  known : id < d.reconciler.nextId
  unheld : ∀ s ∈ d.handles, s.id ≠ id
  marked : ∀ key p, d.record? key = some p → p.id = id → p.progress ≠ .staged

private theorem unheld_step (hk : id < d.reconciler.nextId) (h : ∀ s ∈ d.handles, s.id ≠ id) (a : Action R) :
    ∀ s ∈ (d.step a).handles, s.id ≠ id := by
  intro s hs
  rcases mem_handles_step hs with hs | ⟨m,_,_,hid⟩
  · exact h s hs
  · rw [hid]
    exact Nat.ne_of_gt hk

private theorem sent_step (h : d.Sent id) (a : Action R) : (d.step a).Sent id := by
  refine ⟨Nat.lt_of_lt_of_le h.known (nextId_le_step d a),unheld_step h.known h.unheld a,?_⟩
  intro key p hp hid
  cases recorded_step hp with
  | made _ _ _ => exact absurd hid (Nat.ne_of_gt h.known)
  | kept _ hq =>
    have hmarked := h.marked key _ hq hid
    exact hmarked
  | sent _ _ _ _ | accepted _ _ _ _ => exact nofun

/-- Whatever is submitted has been staged, and is not submitted again. -/
theorem sendings_run (capacity timeout : Nat) (as : List (Action R)) :
    (((create capacity timeout).sendings as).map (·.1)).Nodup ∧
      ∀ e ∈ (create capacity timeout).sendings as,
        e ∈ (create capacity timeout).roster as ∧ ((create capacity timeout).after as).Sent e.1 := by
  refine nodup_gather Prod.fst (fun as e =>
    e ∈ (create capacity timeout).roster as ∧ ((create capacity timeout).after as).Sent e.1) ?_ ?_ as
  · rintro as a e ⟨hmem,hsent⟩
    rw [roster_append,after_snoc]
    exact ⟨List.mem_append_left _ hmem,sent_step hsent a⟩
  · intro as a
    have henrolled := enrolled_run (R := R) capacity timeout (as ++ [a])
    refine (sending_cases ((create capacity timeout).after as) a).imp_right ?_
    rintro ⟨s,hs,p,hp,hid,_,hone,hunheld,hmarked⟩
    rw [← after_snoc] at hunheld hmarked
    obtain ⟨hmem,hkey⟩ := henrolled.mem_of_record hmarked
    dsimp only at hmem hkey
    rw [hid] at hmem
    refine ⟨_,hone,⟨hmem,henrolled.known _ hmem,hunheld,?_⟩,fun e he => ?_⟩
    · intro key q hq hqid
      obtain ⟨hqmem,hqkey⟩ := henrolled.mem_of_record hq
      rw [hqid] at hqmem
      have hsame : key = s.key := by rw [← hqkey,henrolled.unique hqmem hmem,hkey]
      rw [hsame,hmarked] at hq
      rw [← Option.some.inj hq]
      exact nofun
    · exact Ne.symm (he.2.unheld s hs)

/-- A mutation is submitted when no mutation of its key that was submitted before is pending. -/
theorem serial_run (capacity timeout : Nat) {u : List (Action R)} {a : Action R} {e e' : Nat × Mutation R}
    (he : e ∈ (create capacity timeout).sendings u)
    (he' : e' ∈ ((create capacity timeout).after u).sending a) (hk : e'.2.key = e.2.key) (key : String) :
    ((create capacity timeout).after u).reconciler.progress? key e.1 = none := by
  obtain ⟨hmem,hsent⟩ := (sendings_run capacity timeout u).2 e he
  have henrolled := enrolled_run (R := R) capacity timeout u
  rcases sending_cases ((create capacity timeout).after u) a with
    hnone | ⟨s,hs,p,hp,hid,_,hone,_,_⟩
  · rw [hnone] at he'
    cases he'
  · rw [hone] at he'
    obtain rfl := List.mem_singleton.mp he'
    cases hg : ((create capacity timeout).after u).reconciler.progress? key e.1 with
    | none => rfl
    | some g =>
      -- The record at the key is that of the mutation which is submitted now, and that one is held.
      obtain ⟨rfl,q,hq,hqid,_⟩ := henrolled.record_of_progress hmem hg
      have hskey : s.key = e.2.key := by rw [← (henrolled.mem_of_record hp).2,← hk]
      rw [← hskey,hp] at hq
      obtain rfl := Option.some.inj hq
      exact absurd (hid.symm.trans hqid) (hsent.unheld s hs)

private theorem not_sending_of_gone (h : ∀ key, d.reconciler.progress? key id = none) {a : Action R}
    {e : Nat × Mutation R} (he : e ∈ d.sending a) : e.1 ≠ id := by
  rcases sending_cases d a with hnone | ⟨s,_,p,hp,hid,_,hone,_,_⟩
  · rw [hnone] at he
    cases he
  · rw [hone] at he
    obtain rfl := List.mem_singleton.mp he
    rintro rfl
    have hgone := h s.key
    rw [Reconciler.progress?_of_some hp,if_pos hid] at hgone
    cases hgone

/-- A mutation of a run that has lost its record has none under any key, ever. -/
theorem gone_after {l : List (Nat × Mutation R)} (hl : d.Enrolled l) {m : Mutation R} (hm : (id,m) ∈ l)
    (h : d.reconciler.progress? m.key id = none) (as : List (Action R)) :
    ∀ key, (d.after as).reconciler.progress? key id = none := by
  intro key
  cases hg : (d.after as).reconciler.progress? key id with
  | none => rfl
  | some g =>
    obtain ⟨rfl,_⟩ := (enrolled_after hl as).record_of_progress (List.mem_append_left _ hm) hg
    exact absurd ((retired_after ⟨hl.known _ hm,h⟩ as).gone.symm.trans hg) nofun

/-- What is withdrawn before it was submitted is never submitted. -/
theorem withdrawn_run (capacity timeout : Nat) {u v : List (Action R)} {fresh : String} {m : Mutation R}
    {d' : Desk R} {key : String} {p : Pending R}
    (hs : ((create capacity timeout).after u).stage fresh m = .ok (d',.cancelled key))
    (hp : ((create capacity timeout).after u).record? key = some p) :
    ∀ e ∈ (create capacity timeout).sendings (u ++ .stage fresh m::v), e.1 ≠ p.id := by
  have hstep : ((create capacity timeout).after u).step (.stage fresh m) = d' := by simp only [step,act,hs]
  obtain ⟨r,hr,rfl⟩ := stage_eq_ok hs
  obtain ⟨_,⟨q,hq,hcancel,hkey,rfl⟩ | ⟨_,_,_,hx,_⟩⟩ := Reconciler.stage_eq_ok rfl hr
  · cases hkey
    obtain rfl := Option.some.inj (hp.symm.trans hq)
    have henrolled := enrolled_run (R := R) capacity timeout (u ++ [.stage fresh m])
    obtain ⟨hmem,hpkey⟩ := (enrolled_run (R := R) capacity timeout u).mem_of_record hp
    have hstaged : p.progress = .staged := by
      simp only [Reconciler.cancels,Pending.isSubmitted,Bool.and_eq_true,Bool.not_eq_true',
        decide_eq_false_iff_not,ne_eq,not_not] at hcancel
      exact hcancel.2
    have hgone : ((create capacity timeout).after (u ++ [.stage fresh m])).reconciler.progress?
        p.mutation.key p.id = none := by
      rw [after_snoc,hstep,hpkey]
      exact Reconciler.progress?_of_none (Table.find?_erase_self _ _) _
    intro e he
    have hsplit : u ++ .stage fresh m::v = (u ++ [.stage fresh m]) ++ v := by simp
    rw [sendings,hsplit,gather_append,gather_snoc] at he
    have hstage : ((create capacity timeout).after u).sending (.stage fresh m) = [] := rfl
    rw [hstage,List.append_nil] at he
    rcases List.mem_append.mp he with he | he
    · intro hid
      exact ((sendings_run capacity timeout u).2 e he).2.marked _ p hp hid.symm hstaged
    · obtain ⟨x,a,y,_,he⟩ := mem_gather he
      refine not_sending_of_gone (gone_after henrolled ?_ hgone x) he
      rw [roster_append]
      exact List.mem_append_left _ hmem
  · cases hx

/-! ### A closed reconciler -/

/-- A closed reconciler has no records, and no submission waits for its transaction. -/
structure Shut (d : Desk R) : Prop where
  closed : d.reconciler.closed = true
  bare : ∀ key, d.record? key = none
  released : ∀ id f t deadline, d.find? id = some f → f.phase ≠ .confirmation t deadline

private theorem closed_of_handled {r : Reconciler R} (h : d.Handled id r) : r.closed = d.reconciler.closed := by
  cases h <;> rfl

theorem closed_step (d : Desk R) {a : Action R} (ha : a ≠ .close) :
    (d.step a).reconciler.closed = d.reconciler.closed := by
  have hsame : ∀ r : Reconciler R, (d.step a).reconciler = r → r.closed = d.reconciler.closed →
      (d.step a).reconciler.closed = d.reconciler.closed := by
    rintro r rfl hr
    exact hr
  have hsubject : ∀ i, a.subject? = some i → (d.step a).reconciler.closed = d.reconciler.closed :=
    fun i hi => closed_of_handled (handled_step hi)
  cases a with
  | stage fresh m =>
    rcases stage_cases d fresh m rfl with ⟨hs,_⟩ | ⟨p,_,_,_,_,hs⟩ | ⟨w,_,_,_,hs⟩ <;>
      exact hsame _ (congrArg reconciler hs) rfl
  | advance ms | seed rows => rfl
  | close => exact absurd rfl ha
  | discard i | abort i | submit i | reply i answer | expire i | read i answer => exact hsubject i rfl
  | remote cs => exact hsame _ (reconciler_remote d cs) rfl
  | snapshot rows resync =>
    refine hsame _ (reconciler_snapshot d rows resync) ?_
    cases resync <;> rfl

theorem shut_step (hd : d.Solo) (h : d.Shut) (a : Action R) : (d.step a).Shut := by
  refine ⟨?_,?_,?_⟩
  · by_cases ha : a = .close
    · rw [ha]
      rfl
    · exact (closed_step d ha).trans h.closed
  · intro key
    cases hp : (d.step a).record? key with
    | none => rfl
    | some p =>
      cases recorded_step hp with
      | made _ _ he => cases (entrant?_eq_some he).2.2.1.symm.trans h.closed
      | kept _ hq | sent _ _ hq _ | accepted _ _ _ hq => cases (h.bare key).symm.trans hq
  · intro id f t deadline hf hphase
    cases flown_step hd hf with
    | begun _ _ _ _ => cases hphase
    | kept hg => exact h.released id _ t deadline hg hphase
    | accepted _ _ hp _ => cases (h.bare _).symm.trans hp
    | expired _ _ _ => cases hphase
    | told hg _ _ _ => exact h.released id _ t deadline hg hphase

theorem shut_close (d : Desk R) : (d.step .close).Shut := by
  refine ⟨rfl,fun _ => rfl,?_⟩
  intro id f t deadline hf hphase
  have hkept := (List.mem_filter.mp (List.mem_of_find?_eq_some hf)).2
  simp [hphase] at hkept

theorem closed_after (d : Desk R) {as : List (Action R)} (ha : Open as) :
    (d.after as).reconciler.closed = d.reconciler.closed := by
  induction as generalizing d with
  | nil => rfl
  | cons a as ih => exact (ih (d.step a) (open_cons.mp ha).2).trans (closed_step d (open_cons.mp ha).1)

private theorem open_or_shut (capacity timeout : Nat) (as : List (Action R)) :
    Open as ∨ ((create capacity timeout).after as).Shut := by
  induction as using List.reverseRecOn with
  | nil => exact .inl (List.forall_mem_nil _)
  | append_singleton as a ih =>
    rw [after_snoc]
    rcases ih with hopen | hshut
    · by_cases ha : a = .close
      · subst ha
        exact .inr (shut_close _)
      · exact .inl (open_append.mpr ⟨hopen,open_cons.mpr ⟨ha,List.forall_mem_nil _⟩⟩)
    · exact .inr (shut_step (enrolled_run capacity timeout as).solo hshut a)

private theorem sending_of_shut (h : d.Shut) (a : Action R) : d.sending a = [] := by
  rcases sending_cases d a with hnone | ⟨s,_,p,hp,_⟩
  · exact hnone
  · cases (h.bare s.key).symm.trans hp

private theorem sendings_closed (capacity timeout : Nat) (u v : List (Action R)) :
    (create capacity timeout).sendings (u ++ .close::v) = (create capacity timeout).sendings u := by
  have hsplit : u ++ .close::v = (u ++ [.close]) ++ v := by simp
  have hclose : ((create capacity timeout).after u).sending .close = [] := rfl
  rw [sendings,hsplit,gather_append,gather_snoc,hclose,List.append_nil,← sendings]
  have hrest : ∀ e, e ∉ ((create capacity timeout).after (u ++ [.close])).gather sending v := by
    intro e he
    obtain ⟨x,a,y,_,he⟩ := mem_gather he
    rw [← after_append] at he
    rcases open_or_shut capacity timeout ((u ++ [.close]) ++ x) with hopen | hshut
    · exact absurd rfl (hopen .close (by simp))
    · rw [sending_of_shut hshut a] at he
      cases he
  rw [List.eq_nil_iff_forall_not_mem.mpr hrest,List.append_nil]

/-! ### Waiting for an answer -/

omit [Row R] in
/-- While the reconciler is open, two submissions of a key that wait for the server's answer are one. -/
theorem alone_of_coherent (hd : d.Solo) (hc : ∀ id, d.Coherent id) (key : String) :
    (d.flights.filter fun f => f.phase = .reply ∧ f.key = key).length ≤ 1 := by
  have hrecord : ∀ f ∈ d.flights, f.phase = .reply → f.key = key →
      d.find? f.id = some f ∧ ∃ p, d.record? key = some p ∧ p.id = f.id := by
    rintro f hf hphase rfl
    have hfind := find?_of_mem hd hf
    obtain ⟨p,hp,hid,_⟩ := Reconciler.progress?_eq_some.mp ((hc f.id).submitted hfind hphase).2.2
    exact ⟨hfind,p,hp,hid⟩
  have hsame : ∀ f ∈ d.flights.filter (fun f => f.phase = .reply ∧ f.key = key),
      ∀ g ∈ d.flights.filter (fun f => f.phase = .reply ∧ f.key = key), f = g := by
    intro f hf g hg
    obtain ⟨hf,hwait⟩ := List.mem_filter.mp hf
    obtain ⟨hg,hwait'⟩ := List.mem_filter.mp hg
    obtain ⟨hphase,hk⟩ := of_decide_eq_true hwait
    obtain ⟨hphase',hk'⟩ := of_decide_eq_true hwait'
    obtain ⟨hfind,p,hp,hid⟩ := hrecord f hf hphase hk
    obtain ⟨hfind',q,hq,hid'⟩ := hrecord g hg hphase' hk'
    have hpq : p = q := Option.some.inj (hp.symm.trans hq)
    have hids : f.id = g.id := by rw [← hid,← hid',hpq]
    rw [hids] at hfind
    exact Option.some.inj (hfind.symm.trans hfind')
  have hnodup : (d.flights.filter fun f => f.phase = .reply ∧ f.key = key).Nodup :=
    List.Nodup.filter _ (List.Nodup.of_map _ hd)
  cases hl : d.flights.filter fun f => f.phase = .reply ∧ f.key = key with
  | nil => simp
  | cons f fs =>
    cases fs with
    | nil => simp
    | cons g gs =>
      rw [hl] at hnodup hsame
      have hfg : f = g := hsame f (by simp) g (by simp)
      simp [hfg] at hnodup

/-! ### Reading a row -/

/-- A row is asked for when the deadline of a submission has come. -/
theorem reading_cases (d : Desk R) (a : Action R) : d.reading a = [] ∨
    ∃ f t deadline, d.find? f.id = some f ∧ f.phase = .confirmation t deadline ∧ deadline ≤ d.now ∧
      a = .expire f.id ∧ d.reading a = [(f.id,f.key)] ∧
      (d.step a).find? f.id = some { f with phase := .reading t } := by
  cases a with
  | expire i =>
    rw [step,act,reading,expire]
    split
    · next i' key m t deadline signal hf =>
      obtain rfl : i' = i := id_of_find? hf
      split
      · next hdue =>
        refine .inr ⟨⟨i',key,m,.confirmation t deadline,signal⟩,t,deadline,hf,rfl,hdue,rfl,rfl,?_⟩
        rw [find?_requeue,if_pos rfl]
      · exact .inl rfl
    · exact .inl rfl
  | stage fresh m | discard i | submit i | abort i | reply i answer | read i answer | advance ms | remote cs
  | snapshot rows resync | seed rows | close => exact .inl rfl

/-- A mutation that will ask for no row any more: its submission has, or is over. -/
structure Late (d : Desk R) (id : Nat) : Prop where
  known : id < d.reconciler.nextId
  unheld : ∀ s ∈ d.handles, s.id ≠ id
  reading : ∀ f, d.find? id = some f → f.isReading

private theorem late_step (hd : d.Solo) (h : d.Late id) (a : Action R) : (d.step a).Late id := by
  refine ⟨Nat.lt_of_lt_of_le h.known (nextId_le_step d a),unheld_step h.known h.unheld a,?_⟩
  intro f hf
  cases flown_step hd hf with
  | begun hs hid _ _ => exact absurd hid (h.unheld _ hs)
  | kept hg => exact h.reading _ hg
  | accepted hg hphase _ _ =>
    have hreading := h.reading _ hg
    rw [Flight.isReading,hphase] at hreading
    cases hreading
  | expired _ _ _ => rfl
  | told hg _ _ _ =>
    have hreading := h.reading _ hg
    exact hreading

/-- While a mutation waits for its transaction its record goes on to say so, or goes. -/
theorem awaiting_step (hd : d.Coherent id) (hp : d.reconciler.progress? key id = some (.awaiting t))
    (a : Action R) : (d.step a).reconciler.progress? key id = some (.awaiting t) ∨
      (d.step a).reconciler.progress? key id = none := by
  cases hg : (d.step a).reconciler.progress? key id with
  | none => exact .inr rfl
  | some g =>
    left
    rw [← hg]
    obtain ⟨p',hp',hid,rfl⟩ := Reconciler.progress?_eq_some.mp hg
    rw [hg]
    cases recorded_step hp' with
    | made _ _ _ => cases (hd.fresh (Nat.le_of_eq hid)).2.2 key |>.symm.trans hp
    | kept _ hq =>
      rw [Reconciler.progress?_of_some hq,if_pos hid] at hp
      exact hp
    | sent hs _ _ hq => exact absurd (hq.symm.trans hid) (hd.unheld_of_progress hp nofun _ hs)
    | accepted hf hphase hk hq =>
      have hid' : _ = id := hid
      rw [hid'] at hf
      have hsubmitted := (hd.submitted hf hphase).2.2
      rw [hk,hp] at hsubmitted
      cases hsubmitted

private theorem awaiting_after (hd : d.Coherent id) (hp : d.reconciler.progress? key id = some (.awaiting t))
    {as : List (Action R)} (ha : Open as) (hlast : (d.after as).reconciler.progress? key id ≠ none) :
    ∀ u v, as = u ++ v → (d.after u).reconciler.progress? key id = some (.awaiting t) := by
  induction as generalizing d with
  | nil =>
    intro u v huv
    rw [(List.append_eq_nil_iff.mp huv.symm).1]
    exact hp
  | cons a as ih =>
    obtain ⟨ha,has⟩ := open_cons.mp ha
    intro u v huv
    cases u with
    | nil => exact hp
    | cons b u =>
      obtain ⟨rfl,hrest⟩ := List.cons.inj (huv.trans List.cons_append)
      rcases awaiting_step hd hp a with hstays | hgone
      · exact ih (coherent_step hd ha).1 hstays has hlast u v hrest
      · have hknown := Nat.lt_of_lt_of_le (hd.known_of_progress hp) (nextId_le_step d a)
        exact absurd (retired_after ⟨hknown,hgone⟩ as).gone hlast

/-- A mutation has waited for its transaction, in vain, from the server's answer on and for as long as it
is given. -/
def Overdue (d : Desk R) (u : List (Action R)) (key : String) (id : Nat) : Prop :=
  ∃ x t y f, u = x ++ .reply id (.ok t)::y ∧ (d.after x).find? id = some f ∧ f.phase = .reply ∧
    f.key = key ∧ (d.after x).now + d.timeout ≤ (d.after u).now ∧
    ∀ y₁ y₂, y = y₁ ++ y₂ →
      (d.after (x ++ .reply id (.ok t)::y₁)).reconciler.progress? key id = some (.awaiting t)

theorem overdue_of_reading (capacity timeout : Nat) {u : List (Action R)} {a : Action R} {e : Nat × String}
    (he : e ∈ ((create capacity timeout).after u).reading a) :
    (create capacity timeout).Overdue u e.2 e.1 ∧ ∃ m, (e.1,m) ∈ (create capacity timeout).roster u ∧
      m.key = e.2 := by
  have henrolled := enrolled_run (R := R) capacity timeout u
  have hanswered := answered_run (R := R) capacity timeout u
  rcases reading_cases ((create capacity timeout).after u) a with
    hnone | ⟨f,t,deadline,hf,hphase,hdue,_,hone,_⟩
  · rw [hnone] at he
    cases he
  · rw [hone] at he
    obtain rfl := List.mem_singleton.mp he
    refine ⟨?_,f.mutation,henrolled.flying _ f hf⟩
    obtain ⟨moment,⟨x,y,g,rfl,hg,hwait,hkey,hnow⟩,hdeadline⟩ := hanswered.waiting _ f t deadline hf hphase
    rcases open_or_shut capacity timeout (x ++ .reply f.id (.ok t)::y) with hopen | hshut
    · obtain ⟨hx,hreply,hy⟩ := (open_append.trans (and_congr_right' open_cons)).mp hopen
      have hdx : ((create capacity timeout).after x).Coherent f.id :=
        coherent_after (coherent_create capacity timeout) hx
      have hdxy : ((create capacity timeout).after (x ++ .reply f.id (.ok t)::y)).Coherent f.id :=
        coherent_after (coherent_create capacity timeout) hopen
      have hstill : ((create capacity timeout).after (x ++ .reply f.id (.ok t)::y)).reconciler.progress?
          f.key f.id = some (.awaiting t) := by
        obtain ⟨hsignal,hp⟩ := hdxy.flying f hf
        have hnone : f.signal.isSome = false := by
          rw [Bool.eq_false_iff]
          intro hsome
          have hreading := hsignal hsome
          rw [Flight.isReading,hphase] at hreading
          cases hreading
        rw [hp,if_pos rfl,Flight.expects,hnone,hphase]
        rfl
      rw [after_append,after_cons,← hkey] at hstill
      have hlast := Option.ne_none_iff_exists'.mpr ⟨_,hstill⟩
      have hstep := (coherent_step hdx hreply).1
      have hfirst : (((create capacity timeout).after x).step (.reply f.id (.ok t))).reconciler.progress?
          g.key f.id = some (.awaiting t) := by
        cases ht : ((create capacity timeout).after x).reconciler.ledger.observed.contains g.key t with
        | true => exact absurd (retired_after ((reply_confirming hdx hg hwait ht).retired hdx) y).gone hlast
        | false =>
          obtain ⟨f',hf',hk,he,_⟩ := waiting_of_reply hdx hg hwait ht
          rw [(hstep.flying f' hf').2,if_pos hk.symm,he]
      refine ⟨x,t,y,g,rfl,hg,hwait,hkey,?_,?_⟩
      · rw [hnow]
        exact Nat.le_trans (Nat.le_of_eq hdeadline.symm) hdue
      · intro y₁ y₂ hsplit
        rw [after_append,after_cons,← hkey]
        exact awaiting_after hstep hfirst hy hlast y₁ y₂ hsplit
    · exact absurd hphase (hshut.released _ f t deadline hf)

private theorem readings_run (capacity timeout : Nat) (as : List (Action R)) :
    (((create capacity timeout).readings as).map (·.1)).Nodup ∧
      ∀ e ∈ (create capacity timeout).readings as, ((create capacity timeout).after as).Late e.1 := by
  refine nodup_gather Prod.fst (fun as e => ((create capacity timeout).after as).Late e.1) ?_ ?_ as
  · intro as a e hlate
    rw [after_snoc]
    exact late_step (enrolled_run capacity timeout as).solo hlate a
  · intro as a
    refine (reading_cases ((create capacity timeout).after as) a).imp_right ?_
    rintro ⟨f,t,deadline,hf,hphase,_,_,hone,hfind⟩
    refine ⟨_,hone,?_,fun e hlate hid => ?_⟩
    · rcases open_or_shut capacity timeout as with hopen | hshut
      · have hd : ((create capacity timeout).after as).Coherent f.id :=
          coherent_after (coherent_create capacity timeout) hopen
        obtain ⟨hknown,hunheld⟩ := hd.known_of_flight hf
        rw [after_snoc]
        refine ⟨Nat.lt_of_lt_of_le hknown (nextId_le_step _ a),unheld_step hknown hunheld a,?_⟩
        intro g hg
        rw [← Option.some.inj (hfind.symm.trans hg)]
        rfl
      · exact absurd hphase (hshut.released _ f t deadline hf)
    · have hreading := hlate.reading f (hid ▸ hf)
      rw [Flight.isReading,hphase] at hreading
      cases hreading

/-! ### All together -/

/-- What a desk asks of the server in a run. -/
structure Orderly (d : Desk R) (as : List (Action R)) : Prop where
  /-- All that is submitted is submitted by its holder, under its number. -/
  submits : sent (d.effects as) = (d.sendings as).map (·.2)
  staged : ∀ e ∈ d.sendings as, e ∈ d.roster as
  once : ((d.sendings as).map (·.1)).Nodup
  /-- Until the reconciler is closed at most one submission of a key waits for the server's answer, -/
  alone : Open as → ∀ key, ((d.after as).flights.filter fun f => f.phase = .reply ∧ f.key = key).length ≤ 1
  /-- and none begins while a mutation of the key that was submitted before has its record. -/
  serial : ∀ u a v, as = u ++ a::v → ∀ e ∈ d.sendings u, ∀ e' ∈ (d.after u).sending a,
    e'.2.key = e.2.key → ∀ key, (d.after u).reconciler.progress? key e.1 = none
  withdrawn : ∀ u fresh m v d' key p, as = u ++ .stage fresh m::v →
    (d.after u).stage fresh m = .ok (d',.cancelled key) → (d.after u).record? key = some p →
    ∀ e ∈ d.sendings as, e.1 ≠ p.id
  closed : ∀ u v, as = u ++ .close::v → d.sendings as = d.sendings u
  /-- All rows that are asked for are asked for at the deadlines of submissions. -/
  asks : asked (d.effects as) = (d.readings as).map (·.2)
  readOnce : ((d.readings as).map (·.1)).Nodup
  overdue : ∀ u a v, as = u ++ a::v → ∀ e ∈ (d.after u).reading a,
    d.Overdue u e.2 e.1 ∧ ∃ m, (e.1,m) ∈ d.roster u ∧ m.key = e.2

/-- In every run a key has at most one request under way, which is for a mutation that was staged and not
withdrawn and is made once. A row is asked for once for a mutation, after the server has accepted it and
its transaction has stayed away for as long as it may. -/
theorem requests_orderly (capacity timeout : Nat) (as : List (Action R)) :
    (create capacity timeout).Orderly as where
  submits := (requests_effects _ as).1
  staged e he := ((sendings_run capacity timeout as).2 e he).1
  once := (sendings_run capacity timeout as).1
  alone hopen := by
    apply alone_of_coherent (enrolled_run capacity timeout as).solo
    intro id
    exact coherent_after (coherent_create capacity timeout) hopen
  serial u a v _ e he e' he' hk := serial_run capacity timeout he he' hk
  withdrawn u fresh m v d' key p h hs hp := by
    subst h
    exact withdrawn_run capacity timeout hs hp
  closed u v h := by
    subst h
    exact sendings_closed capacity timeout u v
  asks := (requests_effects _ as).2
  readOnce := (readings_run capacity timeout as).1
  overdue u a v _ e he := overdue_of_reading capacity timeout he

/-- A new feature is taken back; then another one is changed, and its transaction does not come. -/
def overdueEdit : List (Action Entity) := [
  .stage "" (.insert (.inState "E9" .ready)),
  .stage "" (.delete "E9"),
  .submit 1,
  .remote [⟨"E1",some (.inState "E1" .ready),[]⟩],
  .stage "" (Entity.setStatus "E1" .validated),
  .submit 2,
  .reply 2 (.ok ⟨42⟩),
  .advance 30000,
  .expire 2,
  .expire 2,
  .submit 2,
  .stage "" (.insert (.inState "E8" .ready)),
  .close,
  .submit 3]

theorem requests_orderly_overdueEdit : (create 8 30000).Orderly overdueEdit ∧
    (create 8 30000).sendings overdueEdit = [(2,Entity.setStatus "E1" .validated)] ∧
    (create 8 30000).readings overdueEdit = [(2,"E1")] ∧
    ((create 8 30000).roster overdueEdit).map (·.1) = [1,2,3] := by
  refine ⟨requests_orderly 8 30000 overdueEdit,?_,?_,?_⟩ <;> decide +kernel

end Desk
end FieldReplica
