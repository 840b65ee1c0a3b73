import FieldReplica.Proofs.Resolution

/-!
# Who looks after a pending mutation

A mutation that is pending is looked after by its holder, and later by its submission. A holder may let go
of it and a submission may be given up, and the record stays behind: nobody will send it, or hear what the
server says of it. While the reconciler is open this is the only way in which a record loses its owner.
-/
namespace FieldReplica

variable {R : Type} [Row R]

/-- Neither the stream nor a removal can end a record that has no transaction and is not that of an
insertion which waits to be submitted. -/
def Pending.Stuck (p : Pending R) : Prop :=
  p.progress = .submitted ∨ p.progress = .staged ∧ p.mutation.kind ≠ .insert

namespace Desk

variable {d : Desk R} {id : Nat} {key : String}

omit [Row R] in
/-- Someone holds a mutation, or its submission is under way. -/
def Owned (d : Desk R) (id : Nat) : Prop := (∃ s ∈ d.handles, s.id = id) ∨ (d.find? id).isSome

instance (d : Desk R) (id : Nat) : Decidable (d.Owned id) := inferInstanceAs (Decidable (_ ∨ _))

omit [Row R] in
/-- The holder of a mutation lets go of it, or its submission is given up. -/
def Abandons (d : Desk R) (id : Nat) : Action R → Prop
  | .discard i => i = id ∧ ∃ s ∈ d.handles, s.id = id
  | .abort i => i = id ∧ (d.find? id).isSome
  | _ => False

/-- A run abandons a mutation at some moment. -/
def AbandonedIn (d : Desk R) (as : List (Action R)) (id : Nat) : Prop :=
  ∃ u a v, as = u ++ a::v ∧ (d.after u).Abandons id a

omit [Row R] in
private theorem owned_iff_not_spent (hk : id < d.reconciler.nextId) : d.Owned id ↔ ¬ d.Spent id := by
  constructor
  · intro ho hs
    rcases ho with ⟨s,hmem,hid⟩ | hf
    · exact hs.unheld s hmem hid
    · rw [hs.landed] at hf
      cases hf
  · intro hs
    by_contra ho
    simp only [Owned,not_or,not_exists,not_and,Option.not_isSome_iff_eq_none] at ho
    exact hs ⟨hk,ho.1,ho.2⟩

omit [Row R] in
private theorem owned_of_flight {f : Flight R} (hf : d.find? id = some f) : d.Owned id := .inr (by rw [hf]; rfl)

/-! ### An owner stays with a record that stays -/

omit [Row R] in
/-- A mutation has its record under one key at most. -/
theorem Coherent.progress?_of_ne (hd : d.Coherent id) {f : Flight R} (hf : d.find? id = some f)
    (hne : key ≠ f.key) : d.reconciler.progress? key id = none := by
  rw [(hd.flying f hf).2,if_neg hne]

omit [Row R] in
/-- A submission that ends the record under its key leaves the mutation none. -/
theorem Coherent.progress?_of_spares (hd : d.Coherent id) {f : Flight R} (hf : d.find? id = some f)
    {r : Reconciler R} (hr : Reconciler.Spares id d.reconciler r) (hn : r.progress? f.key id = none) :
    r.progress? key id = none := by
  by_cases hk : key = f.key
  · rw [hk]
    exact hn
  · exact hr.recedes key id (hd.progress?_of_ne hf hk)

omit [Row R] in
/-- Whoever submits a mutation begins a submission, unless the record is gone. -/
theorem submit_of_held (hs : ∃ s ∈ d.handles, s.id = id) : ((d.submit id).1.find? id).isSome ∨
    ∃ s ∈ d.handles, s.id = id ∧ d.reconciler.find? s.key id = none ∧ (d.submit id).1 = d.discard id := by
  rw [submit]
  split
  · next hnone =>
    obtain ⟨s,hmem,hid⟩ := hs
    exact absurd (decide_eq_true hid) (List.find?_eq_none.mp hnone s hmem)
  · next s hfind =>
    have hid : s.id = id := by simpa using List.find?_some hfind
    cases hb : d.reconciler.find? s.key s.id with
    | none =>
      refine .inr ⟨s,List.mem_of_find?_eq_some hfind,hid,hid ▸ hb,?_⟩
      have hsame : (d.discard id).reconciler.find? s.key s.id = none := hb
      simp only [Reconciler.beginSubmit,hsame]
      cases (d.discard id).reconciler.closed <;> rfl
    | some p =>
      left
      have hsame : (d.discard id).reconciler.find? s.key s.id = some p := hb
      simp only [Reconciler.beginSubmit,hsame,find?_requeue,if_true,Option.isSome_some]

omit [Row R] in
private theorem owned_submit (hd : d.Coherent id) (hs : ∃ s ∈ d.handles, s.id = id)
    (hp : (d.submit id).1.reconciler.progress? key id ≠ none) : (d.submit id).1.Owned id := by
  rcases submit_of_held hs with hf | ⟨s,hmem,hid,hgone,hsubmit⟩
  · exact .inr hf
  · exfalso
    rw [hsubmit] at hp
    obtain ⟨g,hg⟩ := Option.ne_none_iff_exists'.mp hp
    obtain ⟨rfl,_⟩ := (hd.held s hmem hid).2 key g hg
    have hnone : d.reconciler.progress? s.key id = none := by
      rw [Reconciler.progress?,hgone]
      rfl
    exact hp hnone

private theorem owned_reply (hd : d.Coherent id) {f : Flight R} (hf : d.find? id = some f)
    {answer : Except AdapterError Txid}
    (hp : (d.reply id answer).1.reconciler.progress? key id ≠ none) : (d.reply id answer).1.Owned id := by
  by_cases hphase : f.phase = .reply
  · have hfind : d.reconciler.find? f.key id ≠ none := by
      intro hn
      have hsubmitted := (hd.submitted hf hphase).2.2
      rw [Reconciler.progress?,hn] at hsubmitted
      cases hsubmitted
    obtain ⟨p,hrecord⟩ := Option.ne_none_iff_exists'.mp hfind
    have hgone : ∀ v, (d.reconciler.retire f.key v).progress? key id = none := by
      intro v
      have hspares := Reconciler.spares_retire (Reconciler.find?_eq_some.mp hrecord).1 v
      rw [(Reconciler.find?_eq_some.mp hrecord).2] at hspares
      exact hd.progress?_of_spares hf hspares
        (Reconciler.progress?_of_none (Table.find?_erase_self _ _) id)
    obtain ⟨i,k,m,phase,signal⟩ := f
    obtain rfl : i = id := id_of_find? hf
    obtain rfl : phase = .reply := hphase
    cases answer with
    | error e =>
      exfalso
      simp only [reply,hf,Reconciler.rollBack_of_some hrecord] at hp
      exact hp (hgone p.base)
    | ok t =>
      simp only [reply,hf,Reconciler.awaitTxid_of_some hrecord] at hp ⊢
      by_cases hobserved : d.reconciler.ledger.observed.contains k t = true
      · rw [if_pos hobserved] at hp
        exact absurd (hgone p.base) hp
      · rw [if_neg hobserved]
        exact owned_of_flight (f := ⟨i,k,m,.confirmation t (d.now + d.timeout),signal⟩)
          (by rw [find?_requeue,if_pos rfl])
  · obtain ⟨i,k,m,phase,signal⟩ := f
    have hsame : d.reply id answer = (d,[]) := by
      rw [reply,hf]
      cases phase with
      | reply => exact absurd rfl hphase
      | confirmation t deadline | reading t => rfl
    rw [hsame]
    exact owned_of_flight hf

omit [Row R] in
private theorem owned_expire {f : Flight R} (hf : d.find? id = some f) : (d.expire id).1.Owned id := by
  obtain ⟨i,k,m,phase,signal⟩ := f
  obtain rfl : i = id := id_of_find? hf
  rw [expire,hf]
  cases phase with
  | reply | reading t => exact owned_of_flight hf
  | confirmation t deadline =>
    dsimp only
    split
    · exact owned_of_flight (f := ⟨i,k,m,.reading t,signal⟩) (by rw [find?_requeue,if_pos rfl])
    · exact owned_of_flight hf

private theorem owned_read (hd : d.Coherent id) {f : Flight R} (hf : d.find? id = some f)
    {answer : Except AdapterError (Option R)}
    (hp : (d.read id answer).1.reconciler.progress? key id ≠ none) : (d.read id answer).1.Owned id := by
  obtain ⟨i,k,m,phase,signal⟩ := f
  obtain rfl : i = id := id_of_find? hf
  cases phase with
  | reply | confirmation t deadline =>
    rw [read,hf]
    exact owned_of_flight hf
  | reading t =>
    exfalso
    rw [read,hf] at hp
    cases signal with
    | some t =>
      -- The stream has confirmed the mutation, so that its record went before.
      have hflying := (hd.flying _ hf).2 key
      simp only [Flight.expects,Option.isSome_some,if_true,ite_self] at hflying
      exact hp hflying
    | none =>
      exact hp (hd.progress?_of_spares hf (Reconciler.spares_settle d.reconciler k i t m answer)
        (progress?_settle d.reconciler k i t m answer))

omit [Row R] in
private theorem owned_wake (hd : d.Coherent id) {f : Flight R} (hf : d.find? id = some f) {cs : List Confirmation}
    {r : Reconciler R} (hr : Reconciler.Heard cs d.reconciler r) (hp : r.progress? key id ≠ none) :
    (({ d with reconciler := r } : Desk R).wake cs).1.Owned id := by
  have hkeys : ∀ c ∈ cs, c.id = id → c.key = f.key := by
    intro c hmem hid
    by_contra hne
    have hbefore := (hr.gone c hmem).1
    rw [hid,hd.progress?_of_ne hf hne] at hbefore
    cases hbefore
  by_cases hc : ∃ c ∈ cs, c.id = id
  · exfalso
    obtain ⟨c,hmem,hid⟩ := hc
    by_cases hk : key = f.key
    · have hgone := (hr.gone c hmem).2
      rw [hid,hkeys c hmem hid,← hk] at hgone
      exact hp hgone
    · have hstays := hr.stays key id fun c hmem hkey hid => hk (hkey.symm.trans (hkeys c hmem hid))
      exact hp (hstays.trans (hd.progress?_of_ne hf hk))
  · have habsent : ∀ c ∈ cs, c.id ≠ id := fun c hmem hid => hc ⟨c,hmem,hid⟩
    exact owned_of_flight ((wake_of_absent (d := { d with reconciler := r }) habsent).1.trans hf)

omit [Row R] in
/-- The word of the stream leaves the holder of a mutation and the submission of a pending one. -/
theorem owned_of_heard (hd : d.Coherent id) (ho : d.Owned id) {cs : List Confirmation} {r : Reconciler R}
    (hr : Reconciler.Heard cs d.reconciler r)
    (hp : (({ d with reconciler := r } : Desk R).wake cs).1.reconciler.progress? key id ≠ none) :
    (({ d with reconciler := r } : Desk R).wake cs).1.Owned id := by
  rcases ho with hs | hf
  · left
    rw [handles_wake]
    exact hs
  · obtain ⟨f,hf⟩ := Option.isSome_iff_exists.mp hf
    rw [reconciler_wake] at hp
    exact owned_wake hd hf hr hp

/-- Staging leaves the owners that there are. -/
theorem owned_stage (ho : d.Owned id) (fresh : String) (m : Mutation R) :
    (d.step (.stage fresh m)).Owned id := by
  obtain ⟨h,_⟩ | ⟨p,_,_,_,_,h⟩ | ⟨w,_,_,_,h⟩ := stage_cases d fresh m rfl
  · rw [h]
    exact ho
  · rw [h]
    exact ho
  · rw [h]
    rcases ho with ⟨s,hmem,hid⟩ | hf
    · exact .inl ⟨s,List.mem_append_left _ hmem,hid⟩
    · exact .inr hf

/-- Whoever owns a mutation goes on to own it while it is pending, unless it is abandoned. -/
theorem owned_step (hd : d.Coherent id) (ho : d.Owned id) {a : Action R} (ha : a ≠ .close)
    (hleft : ¬ d.Abandons id a) (hp : (d.step a).reconciler.progress? key id ≠ none) :
    (d.step a).Owned id := by
  by_cases hother : ∃ i, a.subject? = some i ∧ id ≠ i
  · obtain ⟨i,hi,hne⟩ := hother
    have hhides := (hides_step (d := d) hi hne).1
    rcases ho with ⟨s,hmem,hid⟩ | hf
    · exact .inl ⟨s,(hhides.handle s hid).mpr hmem,hid⟩
    · exact .inr (hhides.flight ▸ hf)
  · have hsame : ∀ i, a.subject? = some i → i = id := by
      intro i hi
      by_contra hne
      exact hother ⟨i,hi,Ne.symm hne⟩
    cases a with
    | stage fresh m => exact owned_stage ho fresh m
    | discard i =>
      obtain rfl := hsame i rfl
      rcases ho with hs | hf
      · exact absurd ⟨rfl,hs⟩ hleft
      · exact .inr hf
    | abort i =>
      obtain rfl := hsame i rfl
      rcases ho with hs | hf
      · exact .inl hs
      · exact absurd ⟨rfl,hf⟩ hleft
    | submit i =>
      obtain rfl := hsame i rfl
      rcases ho with hs | hf
      · exact owned_submit hd hs hp
      · obtain ⟨f,hf⟩ := Option.isSome_iff_exists.mp hf
        have hidle : d.submit i = (d,[]) := submit_of_unheld (hd.known_of_flight hf).2
        rw [step,act,hidle]
        exact owned_of_flight hf
    | reply i answer =>
      obtain rfl := hsame i rfl
      rcases ho with ⟨s,hmem,hid⟩ | hf
      · have hidle : d.reply i answer = (d,[]) := by rw [reply,(hd.held s hmem hid).1]
        rw [step,act,hidle]
        exact .inl ⟨s,hmem,hid⟩
      · obtain ⟨f,hf⟩ := Option.isSome_iff_exists.mp hf
        exact owned_reply hd hf hp
    | expire i =>
      obtain rfl := hsame i rfl
      rcases ho with ⟨s,hmem,hid⟩ | hf
      · have hidle : d.expire i = (d,[]) := by rw [expire,(hd.held s hmem hid).1]
        rw [step,act,hidle]
        exact .inl ⟨s,hmem,hid⟩
      · obtain ⟨f,hf⟩ := Option.isSome_iff_exists.mp hf
        exact owned_expire hf
    | read i answer =>
      obtain rfl := hsame i rfl
      rcases ho with ⟨s,hmem,hid⟩ | hf
      · have hidle : d.read i answer = (d,[]) := by rw [read,(hd.held s hmem hid).1]
        rw [step,act,hidle]
        exact .inl ⟨s,hmem,hid⟩
      · obtain ⟨f,hf⟩ := Option.isSome_iff_exists.mp hf
        exact owned_read hd hf hp
    | advance ms => exact ho
    | seed rows => exact ho
    | remote cs => exact owned_of_heard hd ho (Reconciler.heard_applyRemote d.reconciler cs) hp
    | snapshot rows resync =>
      exact owned_of_heard hd ho (Reconciler.heard_applySnapshot d.reconciler rows resync) hp
    | close => exact absurd rfl ha

/-! ### Runs -/

/-- An abandoned mutation is spent: nobody holds it or submits it. -/
theorem spent_of_abandons (hd : d.Coherent id) {a : Action R} (h : d.Abandons id a) :
    (d.step a).Spent id := by
  cases a with
  | discard i =>
    obtain ⟨rfl,s,hmem,hid⟩ := h
    have hk : i < d.reconciler.nextId := by
      by_contra hn
      exact (hd.fresh (Nat.not_lt.mp hn)).1 s hmem hid
    exact ⟨hk,fun s hs => of_decide_eq_true (List.mem_filter.mp hs).2,(hd.held s hmem hid).1⟩
  | abort i =>
    obtain ⟨rfl,hf⟩ := h
    obtain ⟨f,hf⟩ := Option.isSome_iff_exists.mp hf
    exact spent_without hd hf rfl
  | stage _ _ | submit _ | reply _ _ | expire _ | read _ _ | advance _ | remote _ | snapshot _ _ | seed _
    | close => exact h.elim

/-- A record that an action leaves is the new one, or was there before for the same mutation. -/
theorem Recorded.before {a : Action R} {p' : Pending R} (h : d.Recorded key a p') :
    (∃ fresh m, a = .stage fresh m ∧ p'.id = d.reconciler.nextId ∧
      d.entrant? a = some (p'.id,p'.mutation)) ∨ ∃ p, d.record? key = some p ∧ p.id = p'.id := by
  cases h with
  | made hfree hkey he => exact .inl ⟨_,_,rfl,rfl,he⟩
  | kept base hp => exact .inr ⟨_,hp,rfl⟩
  | sent hs hk hp hid => exact .inr ⟨_,hp,rfl⟩
  | accepted hf hphase hk hp => exact .inr ⟨_,hp,rfl⟩

/-- A mutation that is staged is held. -/
theorem owned_of_entrant {a : Action R} {e : Nat × Mutation R} (h : d.entrant? a = some e) :
    (d.step a).Owned e.1 := by
  cases a with
  | stage fresh m =>
    obtain ⟨_,hn⟩ | ⟨p,_,_,_,hn,_⟩ | ⟨w,_,_,he,hs⟩ := stage_cases d fresh m rfl
    · cases hn.symm.trans h
    · cases hn.symm.trans h
    · cases he.symm.trans h
      rw [hs]
      exact .inl ⟨_,List.mem_append_right _ List.mem_cons_self,rfl⟩
  | discard _ | submit _ | abort _ | reply _ _ | expire _ | read _ _ | advance _ | remote _ | snapshot _ _
    | seed _ | close => cases h

theorem AbandonedIn.append {as : List (Action R)} (h : d.AbandonedIn as id) (bs : List (Action R)) :
    d.AbandonedIn (as ++ bs) id := by
  obtain ⟨u,a,v,rfl,ha⟩ := h
  exact ⟨u,a,v ++ bs,by simp,ha⟩

/-- A pending mutation has an owner, or was abandoned. -/
theorem owned_or_abandoned (capacity timeout : Nat) {as : List (Action R)} (ha : Open as) {p : Pending R}
    (hp : ((create capacity timeout).after as).record? key = some p) :
    ((create capacity timeout).after as).Owned p.id ∨ (create capacity timeout).AbandonedIn as p.id := by
  induction as using List.reverseRecOn generalizing p with
  | nil => cases hp
  | append_singleton as a ih =>
    rw [after_snoc] at hp ⊢
    obtain ⟨hopen,hlast⟩ := open_append.mp ha
    rcases (recorded_step hp).before with ⟨_,_,_,_,he⟩ | ⟨q,hq,hid⟩
    · exact .inl (owned_of_entrant he)
    · rw [← hid]
      rcases ih hopen hq with ho | hleft
      · by_cases hleft : ((create capacity timeout).after as).Abandons q.id a
        · exact .inr ⟨as,a,[],rfl,hleft⟩
        · left
          have hcoherent : ((create capacity timeout).after as).Coherent q.id :=
            coherent_after (coherent_create capacity timeout) hopen
          have hkept : (((create capacity timeout).after as).step a).reconciler.progress? key q.id ≠ none :=
            Reconciler.progress?_ne_none hp hid.symm
          exact owned_step hcoherent ho (hlast a List.mem_cons_self) hleft hkept
      · exact .inr (hleft.append [a])

private theorem spent_of_abandonedIn (capacity timeout : Nat) {as : List (Action R)} (ha : Open as)
    (h : (create capacity timeout).AbandonedIn as id) :
    ((create capacity timeout).after as).Spent id := by
  obtain ⟨u,a,v,rfl,hleft⟩ := h
  obtain ⟨hu,hv⟩ := open_append.mp ha
  have hspent := spent_of_abandons (coherent_after (coherent_create capacity timeout) hu) hleft
  rw [after_append]
  exact (spent_after hspent (open_cons.mp hv).2).1

/-! ### Keys that stay locked -/

/-- While its mutation has no owner, a record without a transaction stays. -/
theorem stuck_step {p : Pending R} (hd : d.Coherent p.id) (hs : d.Spent p.id)
    (hp : d.record? key = some p) (hstuck : p.Stuck) {a : Action R} (ha : a ≠ .close) :
    ∃ base, (d.step a).record? key = some { p with base := base } := by
  have hbefore : d.reconciler.progress? key p.id ≠ none := Reconciler.progress?_ne_none hp rfl
  have hunawaited : ∀ t, p.progress ≠ .awaiting t := by
    intro t ht
    rcases hstuck with h | ⟨h,_⟩ <;> cases ht.symm.trans h
  have hafter : (d.step a).reconciler.progress? key p.id ≠ none := by
    intro hn
    obtain ⟨w,hw⟩ := ends_of_gone hd ha hbefore hn
    cases hw with
    | withdrawn hstage hq hid =>
      obtain ⟨_,q,hq,_,hinsert,hstaged⟩ := cancelled_of_ends (Ends.withdrawn hstage hq hid)
      cases hp.symm.trans hq
      rcases hstuck with h | ⟨_,h⟩
      · cases hstaged.symm.trans h
      · exact h hinsert
    | refused hf | overtaken hf | found hf | lost hf => cases hs.landed.symm.trans hf
    | shown hq _ ht | imaged hq _ ht =>
      cases hp.symm.trans hq
      exact hunawaited _ ht
  obtain ⟨g,hg⟩ := Option.ne_none_iff_exists'.mp hafter
  obtain ⟨p',hp',hid,_⟩ := Reconciler.progress?_eq_some.mp hg
  cases recorded_step (a := a) hp' with
  | made hfree => cases hfree.symm.trans hp
  | kept base hq =>
    cases hp.symm.trans hq
    exact ⟨base,hp'⟩
  | sent hmem _ hq hsid =>
    cases hp.symm.trans hq
    exact absurd hsid.symm (hs.unheld _ hmem)
  | accepted hf _ _ hq =>
    cases hp.symm.trans hq
    cases hs.landed.symm.trans hf

private theorem stuck_after {p : Pending R} (hd : d.Coherent p.id) (hs : d.Spent p.id)
    (hp : d.record? key = some p) (hstuck : p.Stuck) {as : List (Action R)} (ha : Open as) :
    ∃ base, (d.after as).record? key = some { p with base := base } := by
  induction as generalizing d p with
  | nil => exact ⟨p.base,hp⟩
  | cons a as ih =>
    obtain ⟨hclose,hopen⟩ := open_cons.mp ha
    obtain ⟨base,hq⟩ := stuck_step hd hs hp hstuck hclose
    obtain ⟨base',hq'⟩ := ih (p := { p with base := base }) (coherent_step hd hclose).1
      (spent_step hs hclose).1 hq hstuck hopen
    exact ⟨base',hq'⟩

/-- A record that cannot be taken back refuses every other mutation of its key. -/
theorem stage_of_stuck {p : Pending R} (hp : d.record? key = some p) (hstuck : p.Stuck)
    (hopen : d.reconciler.closed = false) {fresh : String} {m : Mutation R}
    (hk : (Reconciler.withKey fresh m).key = key) (hm : Row.isMutable R = true ∨ m.kind = .insert) :
    d.stage fresh m = .error (.inFlight key) := by
  have hsupported : ¬ (!Row.isMutable R && decide (m.kind ≠ .insert)) = true := by
    rcases hm with h | h <;> simp [h]
  have hkeeps : ¬ Reconciler.cancels (Reconciler.withKey fresh m) p = true := by
    rcases hstuck with h | ⟨_,h⟩ <;> simp [Reconciler.cancels,Pending.isSubmitted,h]
  subst hk
  have hfind : d.reconciler.ledger.pending.find? (Reconciler.withKey fresh m).key = some p := hp
  have hstage : d.reconciler.stage fresh m = .error (.inFlight (Reconciler.withKey fresh m).key) := by
    simp only [Reconciler.stage,if_neg hsupported,hopen,Bool.false_eq_true,if_false,hfind,if_neg hkeeps]
  rw [stage,hstage]
  rfl

/-- While the reconciler is open, a pending mutation has an owner exactly if the run has not abandoned it.
Without an owner and a transaction its record stays for ever, and its key refuses every other mutation. -/
theorem owned_iff_not_abandoned (capacity timeout : Nat) {as : List (Action R)} (ha : Open as)
    {p : Pending R} (hp : ((create capacity timeout).after as).record? key = some p) :
    (((create capacity timeout).after as).Owned p.id ↔
      ¬ (create capacity timeout).AbandonedIn as p.id) ∧
    (¬ ((create capacity timeout).after as).Owned p.id → p.Stuck → ∀ bs, Open bs →
      (∃ base, ((create capacity timeout).after (as ++ bs)).record? key = some { p with base := base }) ∧
      ∀ fresh m, (Reconciler.withKey fresh m).key = key → Row.isMutable R = true ∨ m.kind = .insert →
        ((create capacity timeout).after (as ++ bs)).stage fresh m = .error (.inFlight key)) := by
  have hcoherent : ((create capacity timeout).after as).Coherent p.id :=
    coherent_after (coherent_create capacity timeout) ha
  have hknown : p.id < ((create capacity timeout).after as).reconciler.nextId := by
    obtain ⟨g,hg⟩ := Option.ne_none_iff_exists'.mp (Reconciler.progress?_ne_none hp rfl)
    exact hcoherent.known_of_progress hg
  refine ⟨⟨?_,?_⟩,?_⟩
  · intro ho hleft
    exact (owned_iff_not_spent hknown).mp ho (spent_of_abandonedIn capacity timeout ha hleft)
  · intro hleft
    exact (owned_or_abandoned capacity timeout ha hp).resolve_right hleft
  · intro ho hstuck bs hbs
    have hspent : ((create capacity timeout).after as).Spent p.id := by
      by_contra hs
      exact ho ((owned_iff_not_spent hknown).mpr hs)
    obtain ⟨base,hstays⟩ := stuck_after hcoherent hspent hp hstuck hbs
    rw [← after_append] at hstays
    refine ⟨⟨base,hstays⟩,?_⟩
    intro fresh m hk hm
    have hopen : ((create capacity timeout).after (as ++ bs)).reconciler.closed = false :=
      closed_after _ (open_append.mpr ⟨ha,hbs⟩)
    exact stage_of_stuck (p := { p with base := base }) hstays hstuck hopen hk hm

/-- Two new features are submitted, and the submission of the second one is given up. -/
def secondGivenUp : List (Action Entity) := [
  .stage "" (.insert (.inState "E8" .ready)),
  .submit 1,
  .stage "" (.insert (.inState "E9" .ready)),
  .submit 2,
  .abort 2]

theorem owned_iff_not_abandoned_secondGivenUp : Open secondGivenUp ∧
    ((create 8 30000).after secondGivenUp).Owned 1 ∧
    (create 8 30000).AbandonedIn secondGivenUp 2 ∧
    ((create 8 30000).after (secondGivenUp ++ [.advance 30000])).stage "" (.delete "E9") =
      .error (.inFlight "E9") := by
  have ha : Open secondGivenUp := by simp [Open,secondGivenUp]
  have hfirst : ((create 8 30000).after secondGivenUp).record? "E8" =
      some ⟨1,.insert (.inState "E8" .ready),.submitted,none⟩ := by decide +kernel
  have hsecond : ((create 8 30000).after secondGivenUp).record? "E9" =
      some ⟨2,.insert (.inState "E9" .ready),.submitted,none⟩ := by decide +kernel
  have hleft : (create 8 30000).AbandonedIn secondGivenUp 2 :=
    ⟨secondGivenUp.take 4,.abort 2,[],rfl,rfl,by decide +kernel⟩
  obtain ⟨hiff,hlocked⟩ := owned_iff_not_abandoned 8 30000 ha hsecond
  have hunowned : ¬ ((create 8 30000).after secondGivenUp).Owned 2 := fun ho => hiff.mp ho hleft
  refine ⟨ha,?_,hleft,?_⟩
  · refine (owned_iff_not_abandoned 8 30000 ha hfirst).1.mpr ?_
    rintro ⟨u,a,v,hsplit,habandons⟩
    have hmem : a ∈ secondGivenUp := hsplit ▸ List.mem_append_right _ List.mem_cons_self
    simp only [secondGivenUp,List.mem_cons,List.not_mem_nil,or_false] at hmem
    rcases hmem with rfl | rfl | rfl | rfl | rfl <;> simp [Abandons] at habandons
  · have hopen : Open [(.advance 30000 : Action Entity)] := by simp [Open]
    exact (hlocked hunowned (.inl rfl) [.advance 30000] hopen).2 "" (.delete "E9") rfl (.inl rfl)

/-- A new feature is submitted, and the submission is given up. The server accepts it all the same, and the
stream shows it as the server has it. -/
def abortedInsert : List (Action Entity) := [
  .stage "" (.insert (.inState "E1" .ready)),
  .submit 1,
  .abort 1,
  .reply 1 (.ok ⟨42⟩),
  .remote [⟨"E1",some (.inState "E1" .openedInOdk),[⟨42⟩]⟩]]

/-- The record of an aborted submission has no owner, and its key stays locked with the value of the
writer. -/
theorem abortedInsert_unowned : (∀ a ∈ abortedInsert, a ≠ .close) ∧
    ((create 8 30000).after abortedInsert).record? "E1" = some ⟨1,.insert (.inState "E1" .ready),
      .submitted,some (.inState "E1" .openedInOdk)⟩ ∧
    ¬ ((create 8 30000).after abortedInsert).Owned 1 ∧
    ((create 8 30000).after abortedInsert).row? "E1" = some (.inState "E1" .ready) ∧
    ((create 8 30000).after abortedInsert).reconciler.verdicts "E1" = [] ∧
    ∀ status, ((create 8 30000).after abortedInsert).stage "" (Entity.setStatus "E1" status) =
      .error (.inFlight "E1") := by
  have hrecord : ((create 8 30000).after abortedInsert).record? "E1" = some ⟨1,
      .insert (.inState "E1" .ready),.submitted,some (.inState "E1" .openedInOdk)⟩ := by decide +kernel
  refine ⟨by simp [abortedInsert],hrecord,by decide +kernel,by decide +kernel,by decide +kernel,?_⟩
  intro status
  exact stage_of_stuck hrecord (.inl rfl) (by decide +kernel) rfl (.inl rfl)

end Desk
end FieldReplica
