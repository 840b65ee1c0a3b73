import FieldReplica.Proofs.Lifetime

/-!
# Waiting for a transaction

A mutation that was accepted waits for its transaction until its record goes. Before that, the
transactions that the stream shows for its key are remembered.
-/
namespace FieldReplica

variable {R : Type} [Row R]

namespace Desk

variable {d : Desk R} {id : Nat} {key : String}

/-! ### What is remembered -/

/-- The pairs that a run shows to the memory of observed transactions, in order. -/
def recordings (d : Desk R) : List (Action R) → List (String × Txid)
  | [] => []
  | a::as =>
    (match a with
    | .remote cs => d.reconciler.ledger.recordings cs
    | _ => []) ++ (d.step a).recordings as

theorem recordings_append (d : Desk R) (as bs : List (Action R)) :
    d.recordings (as ++ bs) = d.recordings as ++ (d.after as).recordings bs := by
  induction as generalizing d with
  | nil => rfl
  | cons a as ih => simp only [List.cons_append,recordings,ih,after_cons,List.append_assoc]

private theorem observed_step (d : Desk R) (a : Action R) :
    (d.step a).reconciler.ledger.observed = d.reconciler.ledger.observed.note (d.recordings [a]) := by
  have hsame : ∀ r, (d.step a).reconciler = r → r.ledger.observed = d.reconciler.ledger.observed →
      (d.step a).reconciler.ledger.observed = d.reconciler.ledger.observed.note [] := by
    rintro r rfl hr
    exact hr
  cases a with
  | stage fresh m =>
    cases hs : d.stage fresh m with
    | error e => exact hsame _ (by simp only [step,act,hs]) rfl
    | ok x =>
      obtain ⟨d',st⟩ := x
      obtain ⟨r,hr,rfl⟩ := stage_eq_ok hs
      have hstep : (d.step (.stage fresh m)).reconciler = r := by simp only [step,act,hs]
      obtain ⟨_,⟨p,_,_,_,rfl⟩ | ⟨w,_,_,_,rfl⟩⟩ := Reconciler.stage_eq_ok rfl hr
      · exact hsame _ hstep rfl
      · exact hsame _ hstep rfl
  | discard i | abort i | advance ms | seed rows | close => exact hsame _ rfl rfl
  | submit i =>
    rcases reconciler_submit d i with hr | ⟨s,m,hr⟩
    · exact hsame _ hr rfl
    · rcases Reconciler.beginSubmit_eq_ok hr with ⟨p,_,_,_,hr⟩ | ⟨_,_,_,hr⟩
      · exact hsame _ hr rfl
      · exact hsame _ hr rfl
  | reply i answer =>
    rcases reconciler_reply d i answer with hr | ⟨k,e,hr⟩ | ⟨k,t,b,hr⟩
    · exact hsame _ hr rfl
    · refine hsame _ hr ?_
      cases hp : d.reconciler.find? k i with
      | none => rw [Reconciler.rollBack_of_none hp]
      | some p => rw [Reconciler.rollBack_of_some hp]; rfl
    · obtain ⟨p,_,_,_,hr⟩ := Reconciler.awaitTxid_eq_ok hr
      refine hsame _ hr ?_
      split <;> rfl
  | expire i => exact hsame _ (reconciler_expire d i) rfl
  | read i answer =>
    rcases reconciler_read d i answer with hr | ⟨f,t,_,_,_,hr⟩
    · exact hsame _ hr rfl
    · refine hsame _ hr ?_
      cases hp : d.reconciler.find? f.key i with
      | none => rw [Reconciler.settle_of_none hp]
      | some p => rw [Reconciler.settle_of_some hp]; rfl
  | remote cs =>
    have hr : (d.step (.remote cs)).reconciler = (d.reconciler.applyRemote cs).1 :=
      reconciler_remote d cs
    rw [hr,recordings,recordings,List.append_nil]
    exact Ledger.observed_receiveAll _ _
  | snapshot rows resync =>
    refine hsame _ (reconciler_snapshot d rows resync) ?_
    rw [Reconciler.ledger_applySnapshot]
    rfl

theorem observed_after (d : Desk R) (as : List (Action R)) :
    (d.after as).reconciler.ledger.observed =
      d.reconciler.ledger.observed.note (d.recordings as) := by
  induction as generalizing d with
  | nil => rfl
  | cons a as ih =>
    have hsplit : d.recordings (a::as) = d.recordings [a] ++ (d.step a).recordings as :=
      recordings_append d [a] as
    rw [after_cons,ih,hsplit,observed_step,ObservedTxids.note_append]

/-- The other pairs that a run records after it has recorded a pair first. -/
def newcomers (d : Desk R) (key : String) (t : Txid) (as : List (Action R)) : List (String × Txid) :=
  ObservedTxids.newcomers (key,t) (d.reconciler.ledger.observed.recorded (d.recordings as))

/-- A transaction that was shown is remembered, unless too many others were recorded since. -/
theorem contains_after {capacity timeout : Nat} {as : List (Action R)} {t : Txid}
    (h : (key,t) ∈ (create capacity timeout).recordings as)
    (hfew : ((create capacity timeout).newcomers key t as).length < Reconciler.observedCapacity) :
    ((create capacity timeout).after as).reconciler.ledger.observed.contains key t = true := by
  rw [observed_after]
  exact ObservedTxids.contains_note h hfew

/-! ### The submission of an accepted mutation -/

/-- A run in which the reconciler stays open and a submission is not given up. -/
def Undisturbed (id : Nat) (as : List (Action R)) : Prop := ∀ a ∈ as, a ≠ .close ∧ a ≠ .abort id

omit [Row R] in
theorem undisturbed_append {as bs : List (Action R)} :
    Undisturbed id (as ++ bs) ↔ Undisturbed id as ∧ Undisturbed id bs := List.forall_mem_append

omit [Row R] in
theorem undisturbed_cons {a : Action R} {as : List (Action R)} :
    Undisturbed id (a::as) ↔ (a ≠ .close ∧ a ≠ .abort id) ∧ Undisturbed id as := List.forall_mem_cons

omit [Row R] in
theorem Undisturbed.open {as : List (Action R)} (h : Undisturbed id as) : Open as := fun a ha => (h a ha).1

omit [Row R] in
theorem reply_undisturbing (id i : Nat) (answer : Except AdapterError Txid) :
    (.reply i answer : Action R) ≠ .close ∧ (.reply i answer : Action R) ≠ .abort id := ⟨nofun,nofun⟩

omit [Row R] in
theorem remote_undisturbing (id : Nat) (cs : List (RemoteChange R)) :
    (.remote cs : Action R) ≠ .close ∧ (.remote cs : Action R) ≠ .abort id := ⟨nofun,nofun⟩

omit [Row R] in
/-- A submission that waits for a transaction is past the server's answer, and has no confirmation. -/
theorem expects_eq_awaiting {f : Flight R} {t : Txid} (h : f.expects = some (.awaiting t)) :
    f.signal = none ∧ ((∃ deadline, f.phase = .confirmation t deadline) ∨ f.phase = .reading t) := by
  rw [Flight.expects] at h
  split at h
  · cases h
  · next hs =>
    refine ⟨by simpa using hs,?_⟩
    split at h
    · cases h
    · next t' deadline hp =>
      cases h
      exact .inl ⟨deadline,hp⟩
    · next t' hp =>
      cases h
      exact .inr hp

/-- A read that settles a mutation ends its record. -/
theorem progress?_settle (r : Reconciler R) (key : String) (id : Nat) (t : Txid) (m : Mutation R)
    (answer : Except AdapterError (Option R)) :
    (r.settle key id t m answer).1.progress? key id = none := by
  cases hp : r.find? key id with
  | none => rw [Reconciler.settle_of_none hp,Reconciler.progress?,hp,Option.map_none]
  | some p =>
    rw [Reconciler.settle_of_some hp]
    exact Reconciler.progress?_of_none (Table.find?_erase_self _ _) id

omit [Row R] in
private theorem waiting_wake (hd : d.Coherent id) {f : Flight R} {t : Txid} (hf : d.find? id = some f)
    (he : f.expects = some (.awaiting t)) {cs : List Confirmation} {r : Reconciler R}
    (hr : Reconciler.Heard cs d.reconciler r)
    (hp : (({ d with reconciler := r } : Desk R).wake cs).1.reconciler.progress? f.key id ≠ none) :
    ∃ f', (({ d with reconciler := r } : Desk R).wake cs).1.find? id = some f' ∧ f'.key = f.key ∧
      f'.expects = some (.awaiting t) := by
  rw [reconciler_wake] at hp
  have hc : ∀ c ∈ cs, c.id ≠ id := by
    rintro c hc rfl
    obtain ⟨hbefore,hafter⟩ := hr.gone c hc
    rw [(hd.flying f hf).2] at hbefore
    split at hbefore
    · next hk => exact hp (hk ▸ hafter)
    · cases hbefore
  exact ⟨f,(hides_wake hr hc).1.flight.trans hf,rfl,he⟩

/-- What an action can do to a submission that has the server's answer: nothing, unless its deadline
passes, its row arrives or the stream brings its word. -/
theorem answered_step (hd : d.Coherent id) {f : Flight R} (hf : d.find? id = some f)
    (hphase : f.phase ≠ .reply) {a : Action R} (ha : a ≠ .close ∧ a ≠ .abort id) :
    ((d.step a).find? id = some f ∧ results id (d.act a).2 = []) ∨ a = .expire id ∨
      (∃ answer, a = .read id answer) ∨
      ∃ cs r, Reconciler.Heard cs d.reconciler r ∧ d.act a = ({ d with reconciler := r } : Desk R).wake cs := by
  have hother : ∀ i, a.subject? = some i → id ≠ i →
      (d.step a).find? id = some f ∧ results id (d.act a).2 = [] := by
    intro i hi hne
    obtain ⟨hhides,hresults⟩ := hides_step hi hne
    exact ⟨hhides.flight.trans hf,hresults⟩
  have hidle : d.act a = (d,[]) → (d.step a).find? id = some f ∧ results id (d.act a).2 = [] := by
    intro h
    rw [step,h]
    exact ⟨hf,rfl⟩
  cases a with
  | stage fresh m =>
    left
    cases hs : d.stage fresh m with
    | error e => exact hidle (by simp only [act,hs])
    | ok x =>
      obtain ⟨d',st⟩ := x
      obtain ⟨r,_,rfl⟩ := stage_eq_ok hs
      simp only [step,act,hs]
      exact ⟨hf,rfl⟩
  | discard i | advance ms | seed rows => exact .inl ⟨hf,rfl⟩
  | submit i =>
    left
    by_cases hid : id = i
    · subst hid
      exact hidle (submit_of_unheld (hd.known_of_flight hf).2)
    · exact hother i rfl hid
  | abort i =>
    have hid : id ≠ i := fun h => ha.2 (h ▸ rfl)
    exact .inl (hother i rfl hid)
  | reply i answer =>
    left
    by_cases hid : id = i
    · subst hid
      refine hidle ?_
      rw [act,reply]
      split
      · next i key m signal hf' =>
        obtain rfl := Option.some.inj (hf'.symm.trans hf)
        exact absurd rfl hphase
      · rfl
    · exact hother i rfl hid
  | expire i =>
    by_cases hid : id = i
    · subst hid
      exact .inr (.inl rfl)
    · exact .inl (hother i rfl hid)
  | read i answer =>
    by_cases hid : id = i
    · subst hid
      exact .inr (.inr (.inl ⟨answer,rfl⟩))
    · exact .inl (hother i rfl hid)
  | remote cs => exact .inr (.inr (.inr ⟨_,_,Reconciler.heard_applyRemote d.reconciler cs,rfl⟩))
  | snapshot rows resync =>
    exact .inr (.inr (.inr ⟨_,_,Reconciler.heard_applySnapshot d.reconciler rows resync,rfl⟩))
  | close => exact absurd rfl ha.1

/-- A submission goes on to wait for its transaction until its record goes. -/
theorem waiting_step (hd : d.Coherent id) {f : Flight R} {t : Txid} (hf : d.find? id = some f)
    (he : f.expects = some (.awaiting t)) {a : Action R} (ha : a ≠ .close ∧ a ≠ .abort id)
    (hp : (d.step a).reconciler.progress? f.key id ≠ none) :
    ∃ f', (d.step a).find? id = some f' ∧ f'.key = f.key ∧ f'.expects = some (.awaiting t) := by
  obtain ⟨hsignal,hphase⟩ := expects_eq_awaiting he
  have hanswered : f.phase ≠ .reply := by
    rcases hphase with ⟨deadline,hphase⟩ | hphase <;> rw [hphase] <;> exact nofun
  rcases answered_step hd hf hanswered ha with ⟨hsame,_⟩ | rfl | ⟨answer,rfl⟩ | ⟨cs,r,hr,hact⟩
  · exact ⟨f,hsame,rfl,he⟩
  · rw [step,act,expire]
    split
    · next i key m t' deadline signal hf' =>
      obtain rfl := Option.some.inj (hf'.symm.trans hf)
      obtain rfl : i = id := id_of_find? hf
      split
      · refine ⟨⟨i,key,m,.reading t',signal⟩,?_,rfl,he⟩
        rw [find?_requeue,if_pos rfl]
      · exact ⟨_,hf,rfl,he⟩
    · exact ⟨f,hf,rfl,he⟩
  · rcases hphase with ⟨deadline,hphase⟩ | hphase
    · refine ⟨f,?_,rfl,he⟩
      rw [step,act,read]
      split
      · next i key m t' signal hf' =>
        obtain rfl := Option.some.inj (hf'.symm.trans hf)
        cases hphase
      · exact hf
    · obtain ⟨i,key,m,phase,signal⟩ := f
      obtain rfl : phase = _ := hphase
      obtain rfl : signal = none := hsignal
      have hr : (d.step (.read id answer)).reconciler = (d.reconciler.settle key id t m answer).1 := by
        simp only [step,act,read,hf]
        rfl
      rw [hr,progress?_settle] at hp
      exact absurd rfl hp
  · rw [step,hact] at hp ⊢
    exact waiting_wake hd hf he hr hp

theorem waiting_after (hd : d.Coherent id) {f : Flight R} {t : Txid} (hf : d.find? id = some f)
    (he : f.expects = some (.awaiting t)) {as : List (Action R)} (ha : Undisturbed id as)
    (hp : (d.after as).reconciler.progress? f.key id ≠ none) :
    ∃ f', (d.after as).find? id = some f' ∧ f'.key = f.key ∧ f'.expects = some (.awaiting t) := by
  induction as generalizing d f with
  | nil => exact ⟨f,hf,rfl,he⟩
  | cons a as ih =>
    obtain ⟨ha,has⟩ := undisturbed_cons.mp ha
    have hstill : (d.step a).reconciler.progress? f.key id ≠ none := by
      intro hn
      have hknown := Nat.lt_of_lt_of_le (hd.known_of_flight hf).1 (nextId_le_step d a)
      exact hp (retired_after ⟨hknown,hn⟩ as).gone
    obtain ⟨f',hf',hk,he'⟩ := waiting_step hd hf he ha hstill
    rw [after_cons,← hk] at hp
    obtain ⟨f'',hf'',hk',he''⟩ := ih (coherent_step hd ha.1).1 hf' he' has hp
    exact ⟨f'',hf'',hk'.trans hk,he''⟩

omit [Row R] in
/-- A submission that waits for the server's answer has its record, which was sent. -/
theorem Coherent.submitted (hd : d.Coherent id) {f : Flight R} (hf : d.find? id = some f)
    (hphase : f.phase = .reply) :
    f.signal = none ∧ f.expects = some .submitted ∧
      d.reconciler.progress? f.key id = some .submitted := by
  obtain ⟨hs,hp⟩ := hd.flying f hf
  have hsignal : f.signal = none := by
    cases h : f.signal with
    | none => rfl
    | some t =>
      have hreading := hs (by rw [h]; rfl)
      rw [Flight.isReading,hphase] at hreading
      cases hreading
  have hexpects : f.expects = some .submitted := by
    simp only [Flight.expects,hsignal,hphase,Option.isSome_none,Bool.false_eq_true,if_false]
  exact ⟨hsignal,hexpects,by rw [hp,if_pos rfl,hexpects]⟩

/-- Before the server's answer no record has a transaction, so that the transactions which the stream
shows for its key are remembered. -/
theorem mem_recordings_of_reply (hd : d.Coherent id) {u v : List (Action R)} {cs : List (RemoteChange R)}
    (ha : Undisturbed id (u ++ .remote cs::v)) {f : Flight R}
    (hf : (d.after (u ++ .remote cs::v)).find? id = some f) (hphase : f.phase = .reply)
    (hp : (d.after u).reconciler.progress? f.key id ≠ none) {c : RemoteChange R} (hc : c ∈ cs)
    (hk : c.key = f.key) {t : Txid} (ht : t ∈ c.txids) :
    (f.key,t) ∈ d.recordings (u ++ .remote cs::v) := by
  obtain ⟨hu,hv⟩ := undisturbed_append.mp ha
  have hdu : (d.after u).Coherent id := coherent_after hd hu.open
  obtain ⟨g,hg⟩ := Option.ne_none_iff_exists'.mp hp
  have hsubmitted := ((coherent_after hd ha.open).submitted hf hphase).2
  rw [after_append] at hf hsubmitted
  have hunanswered : ∀ t', g ≠ .awaiting t' := by
    rintro t' rfl
    cases hflight : (d.after u).find? id with
    | some x =>
      have hx := (hdu.flying x hflight).2 f.key
      rw [hg] at hx
      split at hx
      · next hkey =>
        have hlast : ((d.after u).after (.remote cs::v)).reconciler.progress? x.key id ≠ none := by
          rw [← hkey,hsubmitted.2]
          exact nofun
        obtain ⟨f',hf',_,he⟩ := waiting_after hdu hflight hx.symm hv hlast
        obtain rfl := Option.some.inj (hf'.symm.trans hf)
        cases he.symm.trans hsubmitted.1
      · cases hx
    | none =>
      have hspent : (d.after u).Spent id :=
        ⟨hdu.known_of_progress hg,hdu.unheld_of_progress hg nofun,hflight⟩
      rw [(spent_after hspent hv.open).1.landed] at hf
      cases hf
  obtain ⟨p,hp,_,rfl⟩ := Reconciler.progress?_eq_some.mp hg
  have htxid : p.txid? = none := by
    rw [Pending.txid?]
    split
    · next t' ht' => exact absurd ht' (hunanswered t')
    · rfl
    · rfl
  rw [recordings_append]
  exact List.mem_append_right _ (List.mem_append_left _ (Ledger.mem_recordings hp htxid hc hk ht))

end Desk
end FieldReplica
