import FieldReplica.Proofs.Submission

/-!
# Submissions and their records

A mutation that is held is staged, and one whose submission is under way has exactly the record that the
submission waits with. The stream ends a record only together with what the submission waits for, so
that this stays so whatever happens, as long as the reconciler is not closed.
-/
namespace FieldReplica

variable {R : Type}

/-- How far the record of a submission must be; none if it is gone. -/
def Flight.expects (f : Flight R) : Option Progress :=
  if f.signal.isSome then none
  else
    match f.phase with
    | .reply => some .submitted
    | .confirmation t _ | .reading t => some (.awaiting t)

private theorem Flight.expects_ne_staged (f : Flight R) : f.expects ≠ some .staged := by
  rw [expects]
  split
  · exact nofun
  · split <;> exact nofun

/-- Whether a submission waits for the row that it asked for. -/
def Flight.isReading (f : Flight R) : Bool :=
  match f.phase with
  | .reading _ => true
  | .reply | .confirmation _ _ => false

namespace Reconciler

/-- What the stream's word makes of a reconciler: the confirmed mutations lose their records, and all
others stay as far as they are. -/
structure Heard (cs : List Confirmation) (r r' : Reconciler R) : Prop where
  next : r'.nextId = r.nextId
  gone : ∀ c ∈ cs, r.progress? c.key c.id = some (.awaiting c.txid) ∧ r'.progress? c.key c.id = none
  stays : ∀ key id, (∀ c ∈ cs, c.key = key → c.id ≠ id) → r'.progress? key id = r.progress? key id

variable [Row R]

theorem heard_applyRemote (r : Reconciler R) (cs : List (RemoteChange R)) :
    Heard (r.applyRemote cs).2 r (r.applyRemote cs).1 := by
  refine ⟨rfl,fun c hc => ?_,fun key id h => ?_⟩
  · have hmem : c ∈ (r.ledger.receiveAll cs).confirmed.filter (·.key = c.key) :=
      List.mem_filter.mpr ⟨hc,decide_eq_true rfl⟩
    cases hp : r.ledger.pending.find? c.key with
    | none =>
      rw [(Ledger.receiveAll_of_absent hp cs).2] at hmem
      cases hmem
    | some p =>
      rcases Ledger.receiveAll_of_present hp cs with ⟨t,ht,_,hn,hconf⟩ | ⟨_,_,hconf⟩
      · rw [hconf,List.mem_singleton] at hmem
        have hid : p.id = c.id := (congrArg Confirmation.id hmem).symm
        have htx : t = c.txid := (congrArg Confirmation.txid hmem).symm
        exact ⟨by rw [progress?_of_some hp,if_pos hid,ht,htx],progress?_of_none hn _⟩
      · rw [hconf] at hmem
        cases hmem
  · cases hp : r.ledger.pending.find? key with
    | none =>
      have hn : (r.applyRemote cs).1.ledger.pending.find? key = none :=
        (Ledger.receiveAll_of_absent hp cs).1
      rw [progress?_of_none hn,progress?_of_none hp]
    | some p =>
      rcases Ledger.receiveAll_of_present hp cs with ⟨t,_,_,hn,hconf⟩ | ⟨_,⟨base,hb⟩,_⟩
      · have hmem : ⟨p.id,key,t⟩ ∈ (r.ledger.receiveAll cs).confirmed.filter (·.key = key) := by
          rw [hconf]
          exact List.mem_singleton_self _
        have hne : p.id ≠ id := h ⟨p.id,key,t⟩ (List.mem_filter.mp hmem).1 rfl
        have hn' : (r.applyRemote cs).1.ledger.pending.find? key = none := hn
        rw [progress?_of_none hn',progress?_of_some hp,if_neg hne]
      · have hb' : (r.applyRemote cs).1.ledger.pending.find? key = some { p with base := base } := hb
        rw [progress?_of_some hb',progress?_of_some hp]

theorem heard_applySnapshot (r : Reconciler R) (rows : List R) (resync : Bool) :
    Heard (r.applySnapshot rows resync).2 r (r.applySnapshot rows resync).1 := by
  have hledger := ledger_applySnapshot r rows resync
  refine ⟨by cases resync <;> rfl,fun c hc => ?_,fun key id h => ?_⟩
  · obtain ⟨p,hp,hid,ht⟩ := Ledger.mem_reflectedBy.mp hc
    have hn : (r.applySnapshot rows resync).1.ledger.pending.find? c.key = none := by
      rw [hledger,Ledger.find?_rebase,hp,Option.bind_some,Pending.afterImage]
      have ht' : p.reflected? ((imageOf rows).find? c.key) = some c.txid := ht
      rw [ht']
      rfl
    exact ⟨by rw [progress?_of_some hp,if_pos hid,(Pending.reflected?_eq_some.mp ht).1],
      progress?_of_none hn _⟩
  · have hfind : (r.applySnapshot rows resync).1.ledger.pending.find? key =
        (r.ledger.pending.find? key).bind (·.afterImage ((imageOf rows).find? key)) := by
      rw [hledger,Ledger.find?_rebase]
    cases hp : r.ledger.pending.find? key with
    | none =>
      rw [hp] at hfind
      rw [progress?_of_none hfind,progress?_of_none hp]
    | some p =>
      rw [hp,Option.bind_some,Pending.afterImage] at hfind
      split at hfind
      · next ht =>
        obtain ⟨t,ht⟩ := Option.isSome_iff_exists.mp ht
        have hne : p.id ≠ id :=
          h ⟨p.id,key,t⟩ (Ledger.mem_reflectedBy.mpr ⟨p,hp,rfl,ht⟩) rfl
        rw [progress?_of_none hfind,progress?_of_some hp,if_neg hne]
      · rw [progress?_of_some hfind,progress?_of_some hp]

end Reconciler

namespace Desk

/-- What is known of a mutation fits together. -/
structure Coherent (d : Desk R) (id : Nat) : Prop where
  fresh : d.reconciler.nextId ≤ id → (∀ s ∈ d.handles, s.id ≠ id) ∧ d.find? id = none ∧
    ∀ key, d.reconciler.progress? key id = none
  held : ∀ s ∈ d.handles, s.id = id → d.find? id = none ∧
    ∀ key g, d.reconciler.progress? key id = some g → key = s.key ∧ g = .staged
  flying : ∀ f, d.find? id = some f → (f.signal.isSome → f.isReading) ∧
    ∀ key, d.reconciler.progress? key id = if key = f.key then f.expects else none

variable {d d' : Desk R} {id : Nat}

theorem coherent_of_hides (h : Hides id d d') (hd : d.Coherent id) : d'.Coherent id := by
  refine ⟨fun hn => ?_,fun s hs hid => ?_,fun f hf => ?_⟩
  · obtain ⟨hh,hf,hp⟩ := hd.fresh (Nat.le_trans h.next hn)
    refine ⟨fun s hs hid => hh s ((h.handle s hid).mp hs) hid,h.flight.trans hf,fun key => ?_⟩
    rw [h.record]
    exact hp key
  · obtain ⟨hf,hp⟩ := hd.held s ((h.handle s hid).mp hs) hid
    refine ⟨h.flight.trans hf,fun key g hg => hp key g ?_⟩
    rw [← h.record]
    exact hg
  · obtain ⟨hs,hp⟩ := hd.flying f (h.flight.symm.trans hf)
    refine ⟨hs,fun key => ?_⟩
    rw [h.record]
    exact hp key

/-- A mutation that is neither held nor under way, and never will be again. -/
structure Spent (d : Desk R) (id : Nat) : Prop where
  known : id < d.reconciler.nextId
  unheld : ∀ s ∈ d.handles, s.id ≠ id
  landed : d.find? id = none

private theorem coherent_of_spent (h : d.Spent id) : d.Coherent id where
  fresh hn := absurd h.known (Nat.not_lt.mpr hn)
  held s hs hid := absurd hid (h.unheld s hs)
  flying f hf := by rw [h.landed] at hf; cases hf

theorem spent_of_hides (h : Hides id d d') (hd : d.Spent id) : d'.Spent id :=
  ⟨Nat.lt_of_lt_of_le hd.known h.next,fun s hs hid => hd.unheld s ((h.handle s hid).mp hs) hid,
    h.flight.trans hd.landed⟩

/-- A mutation under way is known and not held. -/
theorem Coherent.known_of_flight (hd : d.Coherent id) {f : Flight R} (hf : d.find? id = some f) :
    id < d.reconciler.nextId ∧ ∀ s ∈ d.handles, s.id ≠ id := by
  constructor
  · by_contra hn
    rw [(hd.fresh (Nat.not_lt.mp hn)).2.1] at hf
    cases hf
  · intro s hs hid
    rw [(hd.held s hs hid).1] at hf
    cases hf

/-- A mutation with a record is known. -/
theorem Coherent.known_of_progress (hd : d.Coherent id) {key : String} {g : Progress}
    (hg : d.reconciler.progress? key id = some g) : id < d.reconciler.nextId := by
  by_contra hn
  rw [(hd.fresh (Nat.not_lt.mp hn)).2.2] at hg
  cases hg

/-- A mutation that was sent is not held. -/
theorem Coherent.unheld_of_progress (hd : d.Coherent id) {key : String} {g : Progress}
    (hg : d.reconciler.progress? key id = some g) (hne : g ≠ .staged) : ∀ s ∈ d.handles, s.id ≠ id :=
  fun s hs hid => hne ((hd.held s hs hid).2 key g hg).2

/-- Without its submission, a mutation that was under way is spent. -/
theorem spent_without (hd : d.Coherent id) {f : Flight R} (hf : d.find? id = some f)
    {r : Reconciler R} (hr : r.nextId = d.reconciler.nextId) :
    (({ d with reconciler := r } : Desk R).without id).Spent id := by
  obtain ⟨hk,hh⟩ := hd.known_of_flight hf
  exact ⟨hr.symm ▸ hk,hh,by rw [find?_without,if_pos rfl]⟩

theorem coherent_discard (hd : d.Coherent id) : (d.discard id).Coherent id := by
  have hh : ∀ s ∈ (d.discard id).handles, s.id ≠ id := fun s hs =>
    of_decide_eq_true (List.mem_filter.mp hs).2
  exact ⟨fun hn => ⟨hh,(hd.fresh hn).2⟩,fun s hs hid => absurd hid (hh s hs),hd.flying⟩

theorem coherent_abort (hd : d.Coherent id) : (d.without id).Coherent id := by
  have hn : (d.without id).find? id = none := by rw [find?_without,if_pos rfl]
  refine ⟨fun h => ⟨(hd.fresh h).1,hn,(hd.fresh h).2.2⟩,fun s hs hid => ⟨hn,(hd.held s hs hid).2⟩,?_⟩
  intro f hf
  rw [hn] at hf
  cases hf

/-- A submission whose record is as it expects it to be. -/
theorem coherent_of_flight {f : Flight R} (hf : d.find? id = some f)
    (hk : id < d.reconciler.nextId) (hh : ∀ s ∈ d.handles, s.id ≠ id)
    (hs : f.signal.isSome → f.isReading)
    (hp : ∀ key, d.reconciler.progress? key id = if key = f.key then f.expects else none) :
    d.Coherent id := by
  refine ⟨fun hn => absurd hk (Nat.not_lt.mpr hn),fun s hs hid => absurd hid (hh s hs),fun f' hf' => ?_⟩
  obtain rfl := Option.some.inj (hf.symm.trans hf')
  exact ⟨hs,hp⟩

/-- The record of a mutation moves on in its place. -/
theorem progress?_put {r : Reconciler R} {key : String} {p : Pending R} (g : Progress)
    (hp : r.ledger.pending.find? key = some p) (k : String) :
    ({ r with ledger := r.ledger.put key { p with progress := g } } : Reconciler R).progress? k p.id =
      if k = key then some g else r.progress? k p.id := by
  by_cases hk : k = key
  · subst hk
    rw [if_pos rfl]
    have hq : ({ r with ledger := r.ledger.put k { p with progress := g } } :
        Reconciler R).ledger.pending.find? k = some { p with progress := g } :=
      Table.find?_insert_self _ _ _
    rw [Reconciler.progress?_of_some hq,if_pos rfl]
  · rw [if_neg hk]
    exact Reconciler.progress?_congr (Table.find?_insert_ne _ _ hk) _

private theorem coherent_requeue {f : Flight R} {p : Pending R} {g : Progress}
    (hp : d.reconciler.ledger.pending.find? f.key = some p) (hid : p.id = f.id)
    (hk : f.id < d.reconciler.nextId) (hh : ∀ s ∈ d.handles, s.id ≠ f.id)
    (hother : ∀ key, key ≠ f.key → d.reconciler.progress? key f.id = none)
    (hs : f.signal = none) (hg : f.expects = some g) :
    (({ d with reconciler := { d.reconciler with
        ledger := d.reconciler.ledger.put f.key { p with progress := g } } } : Desk R).requeue f).Coherent
      f.id := by
  refine coherent_of_flight (by rw [find?_requeue,if_pos rfl]) hk hh (by rw [hs]; nofun) fun key => ?_
  rw [← hid]
  refine (progress?_put g hp key).trans ?_
  rw [hid]
  split
  · exact hg.symm
  · next hne => exact hother key hne

theorem coherent_submit (hd : d.Coherent id) : (d.submit id).1.Coherent id ∧
    (results id (d.submit id).2 = [] ∨ (d.submit id).1.Spent id) := by
  rw [submit]
  split
  · exact ⟨hd,.inl rfl⟩
  · next s hs =>
    have hid : s.id = id := by simpa using List.find?_some hs
    have hmem : s ∈ d.handles := List.mem_of_find?_eq_some hs
    obtain ⟨hf,hp⟩ := hd.held s hmem hid
    have hk : id < d.reconciler.nextId := by
      by_contra hn
      exact (hd.fresh (Nat.not_lt.mp hn)).1 s hmem hid
    have hh : ∀ s ∈ (d.discard id).handles, s.id ≠ id := fun s hs =>
      of_decide_eq_true (List.mem_filter.mp hs).2
    have hspent : (d.discard id).Spent id := ⟨hk,hh,hf⟩
    dsimp only
    split
    · exact ⟨coherent_of_spent hspent,.inr hspent⟩
    · exact ⟨coherent_of_spent hspent,.inr hspent⟩
    · next r m hr =>
      refine ⟨?_,.inl rfl⟩
      rcases Reconciler.beginSubmit_eq_ok hr with ⟨p,hfind,hpid,_,rfl⟩ | ⟨_,_,hx,_⟩
      · refine coherent_requeue (f := ⟨id,s.key,m,.reply,none⟩) hfind (hpid.trans hid) hk hh ?_ rfl rfl
        intro key hne
        cases hg : d.reconciler.progress? key id with
        | none => exact hg
        | some g => exact absurd (hp key g hg).1 hne
      · cases hx

variable [Row R]

theorem coherent_reply (hd : d.Coherent id) (answer : Except AdapterError Txid) :
    (d.reply id answer).1.Coherent id ∧
      (results id (d.reply id answer).2 = [] ∨ (d.reply id answer).1.Spent id) := by
  rw [reply]
  split
  · next i key m signal hf =>
    obtain rfl : i = id := id_of_find? hf
    obtain ⟨hs,hp⟩ := hd.flying _ hf
    obtain ⟨hk,hh⟩ := hd.known_of_flight hf
    have hsignal : signal = none := by
      cases signal with
      | none => rfl
      | some t => cases hs rfl
    subst hsignal
    cases answer with
    | error e =>
      have hspent := spent_without hd hf (Reconciler.spares_rollBack d.reconciler key i (.ofAdapter e)).next
      exact ⟨coherent_of_spent hspent,.inr hspent⟩
    | ok t =>
      dsimp only
      split
      · have hspent : (d.without i).Spent i := spent_without hd hf rfl
        exact ⟨coherent_of_spent hspent,.inr hspent⟩
      · next r hr =>
        have hspent := spent_without hd hf (Reconciler.spares_awaitTxid hr).next
        exact ⟨coherent_of_spent hspent,.inr hspent⟩
      · next r hr =>
        refine ⟨?_,.inl rfl⟩
        obtain ⟨p,hfind,hpid,hb,rfl⟩ := Reconciler.awaitTxid_eq_ok hr
        rw [← hb,if_neg Bool.false_ne_true]
        exact coherent_requeue (f := ⟨i,key,m,.confirmation t (d.now + d.timeout),none⟩) hfind hpid hk hh
          (fun k hne => by rw [hp,if_neg hne]) rfl rfl
  · exact ⟨hd,.inl rfl⟩

omit [Row R] in
theorem coherent_expire (hd : d.Coherent id) : (d.expire id).1.Coherent id ∧
    (results id (d.expire id).2 = [] ∨ (d.expire id).1.Spent id) := by
  rw [expire]
  split
  · next i key m t deadline signal hf =>
    obtain rfl : i = id := id_of_find? hf
    obtain ⟨hs,hp⟩ := hd.flying _ hf
    obtain ⟨hk,hh⟩ := hd.known_of_flight hf
    have hsignal : signal = none := by
      cases signal with
      | none => rfl
      | some t => cases hs rfl
    subst hsignal
    split
    · refine ⟨coherent_of_flight (f := ⟨i,key,m,.reading t,none⟩) ?_ hk hh (fun _ => rfl) hp,.inl rfl⟩
      rw [find?_requeue,if_pos rfl]
    · exact ⟨hd,.inl rfl⟩
  · exact ⟨hd,.inl rfl⟩

theorem coherent_read (hd : d.Coherent id) (answer : Except AdapterError (Option R)) :
    (d.read id answer).1.Coherent id ∧
      (results id (d.read id answer).2 = [] ∨ (d.read id answer).1.Spent id) := by
  rw [read]
  split
  · next i key m t signal hf =>
    obtain rfl : i = id := id_of_find? hf
    cases signal with
    | some t =>
      have hspent : (d.without i).Spent i := spent_without hd hf rfl
      exact ⟨coherent_of_spent hspent,.inr hspent⟩
    | none =>
      have hspent := spent_without hd hf (Reconciler.spares_settle d.reconciler key i t m answer).next
      exact ⟨coherent_of_spent hspent,.inr hspent⟩
  · exact ⟨hd,.inl rfl⟩

/-- A new record at a key. -/
theorem progress?_reserve (r : Reconciler R) (key : String) (p : Pending R) (w : Write R) (k : String)
    (i : Nat) : (({ r with ledger := r.ledger.put key p, nextId := r.nextId + 1 } :
      Reconciler R).write [w]).progress? k i =
        if k = key then if p.id = i then some p.progress else none else r.progress? k i := by
  by_cases hk : k = key
  · have hp : (({ r with ledger := r.ledger.put key p, nextId := r.nextId + 1 } :
        Reconciler R).write [w]).ledger.pending.find? key = some p := Table.find?_insert_self _ _ _
    rw [if_pos hk,hk]
    exact Reconciler.progress?_of_some hp i
  · rw [if_neg hk]
    exact Reconciler.progress?_congr (Table.find?_insert_ne _ _ hk) i

private theorem coherent_retire (hd : d.Coherent id) {key : String} (v : Option R)
    (hstaged : d.reconciler.progress? key id = some .staged) :
    ({ d with reconciler := d.reconciler.retire key v } : Desk R).Coherent id := by
  have hle : ∀ k g, (d.reconciler.retire key v).progress? k id = some g →
      d.reconciler.progress? k id = some g := by
    intro k g hg
    by_cases hk : k = key
    · rw [hk,Reconciler.progress?_of_none (Table.find?_erase_self _ _)] at hg
      cases hg
    · rw [← hg]
      exact (Reconciler.progress?_congr (Table.find?_erase_ne _ hk) id).symm
  refine ⟨fun hn => ?_,fun s hs hid => ?_,fun f hf => ?_⟩
  · exact absurd (hd.known_of_progress hstaged) (Nat.not_lt.mpr hn)
  · exact ⟨(hd.held s hs hid).1,fun k g hg => (hd.held s hs hid).2 k g (hle k g hg)⟩
  · -- A submission under way has no staged record that could be taken back.
    rw [(hd.flying f hf).2] at hstaged
    split at hstaged
    · exact absurd hstaged f.expects_ne_staged
    · cases hstaged

private theorem coherent_reserve (hd : d.Coherent id) (n : Mutation R) (w : Write R)
    (hp : d.reconciler.ledger.pending.find? n.key = none) :
    ({ d with
      reconciler := ({ d.reconciler with
        ledger := d.reconciler.ledger.put n.key
          ⟨d.reconciler.nextId,n,.staged,d.reconciler.store.get? n.key⟩
        nextId := d.reconciler.nextId + 1 } : Reconciler R).write [w]
      handles := d.handles ++ [⟨d.reconciler.nextId,n.key,n.kind⟩] } : Desk R).Coherent id := by
  have hrecord := fun k => progress?_reserve d.reconciler n.key
    ⟨d.reconciler.nextId,n,.staged,d.reconciler.store.get? n.key⟩ w k id
  by_cases hid : id = d.reconciler.nextId
  · subst hid
    obtain ⟨hh,hf,hnone⟩ := hd.fresh (Nat.le_refl _)
    refine ⟨fun hn => absurd (Nat.lt_succ_self _) (Nat.not_lt.mpr hn),fun s hs hid => ?_,
      fun f hf' => by cases hf.symm.trans hf'⟩
    rcases List.mem_append.mp hs with hs | hs
    · exact absurd hid (hh s hs)
    · obtain rfl := List.mem_singleton.mp hs
      refine ⟨hf,fun k g hg => ?_⟩
      rw [hrecord,hnone] at hg
      by_cases hk : k = n.key
      · rw [if_pos hk,if_pos rfl] at hg
        exact ⟨hk,(Option.some.inj hg).symm⟩
      · rw [if_neg hk] at hg
        cases hg
  · refine coherent_of_hides ⟨Nat.le_succ _,fun s hs => ?_,rfl,fun k => ?_⟩ hd
    · rw [List.mem_append,List.mem_singleton,or_iff_left]
      rintro rfl
      exact hid hs.symm
    · rw [hrecord,if_neg (Ne.symm hid)]
      split
      · next hk =>
        rw [hk]
        exact (Reconciler.progress?_of_none hp id).symm
      · rfl

theorem coherent_stage (hd : d.Coherent id) (fresh : String) (m : Mutation R) :
    (d.step (.stage fresh m)).Coherent id := by
  cases hs : d.stage fresh m with
  | error e => simpa only [step,act,hs] using hd
  | ok x =>
    obtain ⟨d',st⟩ := x
    obtain ⟨r,hr,rfl⟩ := stage_eq_ok hs
    simp only [step,act,hs]
    obtain ⟨_,⟨p,hp,hcancel,rfl,rfl⟩ | ⟨w,hp,_,rfl,rfl⟩⟩ := Reconciler.stage_eq_ok rfl hr
    · by_cases hid : id = p.id
      · subst hid
        refine coherent_retire hd p.base ?_
        simp only [Reconciler.cancels,Pending.isSubmitted,Bool.and_eq_true,Bool.not_eq_true',
          decide_eq_false_iff_not,ne_eq,not_not] at hcancel
        rw [Reconciler.progress?_of_some hp,if_pos rfl,hcancel.2]
      · exact coherent_of_hides (hides_reconciler hid (Reconciler.spares_retire hp p.base)) hd
    · exact coherent_reserve hd _ w hp

omit [Row R] in
/-- A submission whose record the stream ends either ends as well or keeps the confirmation. -/
theorem coherent_confirmed (hd : d.Coherent id) {cs : List Confirmation} {r : Reconciler R}
    (hr : Reconciler.Heard cs d.reconciler r) {c : Confirmation} (hc : c ∈ cs) (hid : c.id = id) :
    (({ d with reconciler := r } : Desk R).wake cs).1.Coherent id ∧
      (results id (({ d with reconciler := r } : Desk R).wake cs).2 = [] ∨
        (({ d with reconciler := r } : Desk R).wake cs).1.Spent id) := by
  have hbefore := (hr.gone c hc).1
  rw [hid] at hbefore
  have hk := hd.known_of_progress hbefore
  have hh := hd.unheld_of_progress hbefore nofun
  have hspent : (({ d with reconciler := r } : Desk R).wake cs).1.find? id = none →
      (({ d with reconciler := r } : Desk R).wake cs).1.Spent id := by
    intro hn
    refine ⟨?_,?_,hn⟩
    · rw [reconciler_wake]
      exact hr.next ▸ hk
    · rw [handles_wake]
      exact hh
  cases hf : d.find? id with
  | none =>
    obtain ⟨hn,hresults⟩ := wake_of_none (d := { d with reconciler := r }) hf cs
    exact ⟨coherent_of_spent (hspent hn),.inl hresults⟩
  | some f =>
    obtain ⟨hs,hp⟩ := hd.flying f hf
    rw [hp] at hbefore
    have hkey : c.key = f.key := by
      by_contra hne
      rw [if_neg hne] at hbefore
      cases hbefore
    rw [if_pos hkey,Flight.expects] at hbefore
    have hsignal : ¬ f.signal.isSome := by
      intro h
      rw [if_pos h] at hbefore
      cases hbefore
    rw [if_neg hsignal] at hbefore
    cases hphase : f.phase with
    | reply => rw [hphase] at hbefore; cases hbefore
    | confirmation t deadline =>
      obtain ⟨hn,_⟩ := wake_of_confirmation (d := { d with reconciler := r }) hf hphase ⟨c,hc,hid⟩
      exact ⟨coherent_of_spent (hspent hn),.inr (hspent hn)⟩
    | reading t =>
      obtain ⟨hresults,x,hx,hxid,hfind⟩ :=
        wake_of_reading (d := { d with reconciler := r }) hf hphase ⟨c,hc,hid⟩
      refine ⟨coherent_of_flight hfind ?_ ?_ (fun _ => ?_) fun key => ?_,.inl hresults⟩
      · rw [reconciler_wake]
        exact hr.next ▸ hk
      · rw [handles_wake]
        exact hh
      · simp only [Flight.isReading,hphase]
      · -- The record under the submission's key is gone, and there was none under any other key.
        rw [reconciler_wake]
        simp only [Flight.expects,Option.isSome_some,if_true,ite_self]
        by_cases hgone : ∃ y ∈ cs, y.key = key ∧ y.id = id
        · obtain ⟨y,hy,hykey,hyid⟩ := hgone
          have := (hr.gone y hy).2
          rwa [hykey,hyid] at this
        · have hne : key ≠ f.key := fun h => hgone ⟨c,hc,hkey.trans h.symm,hid⟩
          have hstays := hr.stays key id fun y hy hykey hyid => hgone ⟨y,hy,hykey,hyid⟩
          exact hstays.trans (by rw [hp,if_neg hne])

omit [Row R] in
/-- A submission that the stream does not confirm sees nothing of it. -/
theorem hides_wake {cs : List Confirmation} {r : Reconciler R}
    (hr : Reconciler.Heard cs d.reconciler r) (hc : ∀ c ∈ cs, c.id ≠ id) :
    Hides id d (({ d with reconciler := r } : Desk R).wake cs).1 ∧
      results id (({ d with reconciler := r } : Desk R).wake cs).2 = [] := by
  obtain ⟨hfind,hresults⟩ := wake_of_absent (d := { d with reconciler := r }) hc
  refine ⟨⟨?_,fun s _ => ?_,hfind,fun key => ?_⟩,hresults⟩
  · rw [reconciler_wake]
    exact Nat.le_of_eq hr.next.symm
  · rw [handles_wake]
  · rw [reconciler_wake]
    exact hr.stays key id fun c hc' _ => hc c hc'

omit [Row R] in
theorem coherent_wake (hd : d.Coherent id) {cs : List Confirmation} {r : Reconciler R}
    (hr : Reconciler.Heard cs d.reconciler r) :
    (({ d with reconciler := r } : Desk R).wake cs).1.Coherent id ∧
      (results id (({ d with reconciler := r } : Desk R).wake cs).2 = [] ∨
        (({ d with reconciler := r } : Desk R).wake cs).1.Spent id) := by
  by_cases hc : ∃ c ∈ cs, c.id = id
  · obtain ⟨c,hcs,hid⟩ := hc
    exact coherent_confirmed hd hr hcs hid
  · obtain ⟨hhides,hresults⟩ := hides_wake hr fun c hc' hid => hc ⟨c,hc',hid⟩
    exact ⟨coherent_of_hides hhides hd,.inl hresults⟩

end Desk
end FieldReplica
