import FieldReplica.Proofs.Overlay
import FieldReplica.Proofs.Waiting

/-!
# No confirmation is lost

A mutation that the server accepted is confirmed by its transaction wherever the stream shows it while
the mutation is pending: before the server's answer, before the deadline, or while the row is read.
-/
namespace FieldReplica

variable {R : Type} [Row R]

omit [Row R] in
/-- A batch has a change to a key that a transaction made. -/
def Carries (cs : List (RemoteChange R)) (key : String) (t : Txid) : Prop :=
  ∃ c ∈ cs, c.key = key ∧ t ∈ c.txids

namespace Desk

variable {d : Desk R} {id : Nat} {key : String} {t : Txid}

/-! ### A confirmation that waits for the row -/

/-- A submission keeps its confirmation until the row that it asked for arrives. -/
def Signalled (d : Desk R) (key : String) (id : Nat) (t : Txid) : Prop :=
  ∃ f, d.find? id = some f ∧ f.key = key ∧ f.isReading ∧ f.signal = some t

omit [Row R] in
theorem Signalled.reading (hs : d.Signalled key id t) :
    ∃ m t', d.find? id = some ⟨id,key,m,.reading t',some t⟩ := by
  obtain ⟨⟨i,k,m,phase,signal⟩,hf,rfl,hreading,rfl⟩ := hs
  obtain rfl : i = id := id_of_find? hf
  cases phase with
  | reading t' => exact ⟨m,t',hf⟩
  | reply => cases hreading
  | confirmation t' deadline => cases hreading

/-- Whatever the row is, the submission ends with the confirmation. -/
theorem signalled_read (hd : d.Coherent id) (hs : d.Signalled key id t)
    (answer : Except AdapterError (Option R)) :
    results id (d.act (.read id answer)).2 = [.ok (.confirmed key t)] ∧
      (d.step (.read id answer)).Spent id := by
  obtain ⟨m,t',hf⟩ := hs.reading
  have hact : d.act (.read id answer) = d.resolve id (.ok (.confirmed key t)) := by
    simp only [act,read,hf]
  rw [step,hact,resolve,results_resolved,if_pos rfl]
  exact ⟨rfl,spent_without hd hf rfl⟩

private theorem signalled_step (hd : d.Coherent id) (hs : d.Signalled key id t) {a : Action R}
    (ha : a ≠ .close ∧ a ≠ .abort id) :
    (results id (d.act a).2 = [.ok (.confirmed key t)] ∧ (d.step a).Spent id) ∨
      (results id (d.act a).2 = [] ∧ (d.step a).Signalled key id t) := by
  obtain ⟨m,t',hf⟩ := hs.reading
  have hkeep : (d.step a).find? id = some ⟨id,key,m,.reading t',some t⟩ → (d.step a).Signalled key id t :=
    fun h => ⟨_,h,rfl,rfl,rfl⟩
  rcases answered_step hd hf nofun ha with ⟨hsame,hresults⟩ | rfl | ⟨answer,rfl⟩ | ⟨cs,r,hr,hact⟩
  · exact .inr ⟨hresults,hkeep hsame⟩
  · have hact : d.act (.expire id) = (d,[]) := by simp only [act,expire,hf]
    rw [step,hact]
    exact .inr ⟨rfl,hs⟩
  · exact .inl (signalled_read hd hs answer)
  · -- The record is gone, so that the stream has no second word on the mutation.
    have hc : ∀ c ∈ cs, c.id ≠ id := by
      rintro c hc rfl
      have hbefore := (hr.gone c hc).1
      rw [(hd.flying _ hf).2] at hbefore
      split at hbefore <;> cases hbefore
    obtain ⟨hhides,hresults⟩ := hides_wake hr hc
    refine .inr ⟨hact ▸ hresults,hkeep ?_⟩
    rw [step,hact]
    exact hhides.flight.trans hf

/-- A confirmation has reached a submission in a run. -/
def Reached (d : Desk R) (as : List (Action R)) (key : String) (id : Nat) (t : Txid) : Prop :=
  (results id (d.effects as) = [.ok (.confirmed key t)] ∧ (d.after as).Spent id) ∨
    (results id (d.effects as) = [] ∧ (d.after as).Signalled key id t)

private theorem reached_cons_of_spent {a : Action R} (hr : results id (d.act a).2 = [.ok (.confirmed key t)])
    (hs : (d.step a).Spent id) {as : List (Action R)} (ha : Open as) : d.Reached (a::as) key id t := by
  obtain ⟨hspent,hrest⟩ := spent_after hs ha
  exact .inl ⟨by rw [effects,results_append,hr,hrest]; rfl,hspent⟩

private theorem reached_cons {a : Action R} (hr : results id (d.act a).2 = []) {as : List (Action R)}
    (h : (d.step a).Reached as key id t) : d.Reached (a::as) key id t := by
  rw [Reached,effects,results_append,hr,after_cons]
  exact h

/-- What a submission has been told it keeps until it ends. -/
theorem reached_of_signalled (hd : d.Coherent id) (hs : d.Signalled key id t) {as : List (Action R)}
    (ha : Undisturbed id as) : d.Reached as key id t := by
  induction as generalizing d with
  | nil => exact .inr ⟨rfl,hs⟩
  | cons a as ih =>
    obtain ⟨ha,has⟩ := undisturbed_cons.mp ha
    rcases signalled_step hd hs ha with ⟨hresults,hspent⟩ | ⟨hresults,hs'⟩
    · exact reached_cons_of_spent hresults hspent has.open
    · exact reached_cons hresults (ih (coherent_step hd ha.1).1 hs' has)

/-! ### The action that confirms -/

/-- An action confirms a pending mutation whose submission is under way. -/
structure Confirming (d : Desk R) (a : Action R) (key : String) (id : Nat) (t : Txid) : Prop where
  flying : d.find? id ≠ none
  pending : d.reconciler.progress? key id ≠ none
  gone : (d.step a).record? key = none
  ruled : d.ruling a key = [.confirmed key t]
  reached : d.Reached [a] key id t
  /-- Unless it waits for a row, the submission ends at once. -/
  prompt : (∀ f, d.find? id = some f → f.isReading = false) →
    results id (d.act a).2 = [.ok (.confirmed key t)]

theorem Confirming.retired (hd : d.Coherent id) {a : Action R} (hc : d.Confirming a key id t) :
    (d.step a).Retired key id := by
  obtain ⟨f,hf⟩ := Option.ne_none_iff_exists'.mp hc.flying
  exact ⟨Nat.lt_of_lt_of_le (hd.known_of_flight hf).1 (nextId_le_step d a),
    Reconciler.progress?_of_none hc.gone id⟩

theorem reached_singleton (hd : d.Coherent id) {a : Action R} (ha : a ≠ .close)
    (h : results id (d.act a).2 = [.ok (.confirmed key t)] ∨
      (results id (d.act a).2 = [] ∧ (d.step a).Signalled key id t)) : d.Reached [a] key id t := by
  rcases h with h | ⟨h,hs⟩
  · rcases (coherent_step hd ha).2 with hn | hspent
    · rw [h] at hn
      cases hn
    · exact reached_cons_of_spent h hspent (List.forall_mem_nil _)
  · exact reached_cons h (.inr ⟨rfl,hs⟩)

/-- The server's answer confirms a mutation whose transaction is remembered. -/
theorem reply_confirming (hd : d.Coherent id) {f : Flight R} (hf : d.find? id = some f)
    (hphase : f.phase = .reply) (ht : d.reconciler.ledger.observed.contains f.key t = true) :
    d.Confirming (.reply id (.ok t)) f.key id t := by
  have hpending := (hd.submitted hf hphase).2.2
  obtain ⟨i,key,m,phase,signal⟩ := f
  obtain rfl : phase = _ := hphase
  dsimp only at ht hpending ⊢
  obtain ⟨p,hp,hid,_⟩ := Reconciler.progress?_eq_some.mp hpending
  have hawait := Reconciler.awaitTxid_of_some (Reconciler.find?_eq_some.mpr ⟨hp,hid⟩) t
  rw [if_pos ht] at hawait
  have hact : d.act (.reply id (.ok t)) = ({ d with
      reconciler := (d.reconciler.retire key p.base).notify (.confirmed key t) } : Desk R).resolve id
        (.ok (.confirmed key t)) := by
    simp only [act,reply,hf,hawait]
  have hstep : (d.step (.reply id (.ok t))).reconciler =
      (d.reconciler.retire key p.base).notify (.confirmed key t) := by
    rw [step,hact]
    rfl
  have hresults : results id (d.act (.reply id (.ok t))).2 = [.ok (.confirmed key t)] := by
    rw [hact,resolve,results_resolved,if_pos rfl]
  refine ⟨Option.ne_none_iff_exists'.mpr ⟨_,hf⟩,Option.ne_none_iff_exists'.mpr ⟨_,hpending⟩,?_,
    ruling_eq ?_,reached_singleton hd (reply_undisturbing id id _).1 (.inl hresults),fun _ => hresults⟩
  · rw [record?,hstep]
    exact Table.find?_erase_self d.reconciler.ledger.pending key
  · rw [hstep,Reconciler.verdicts_notify,Reconciler.verdicts_retire]
    simp [Event.isVerdict]

/-- The server's answer has a mutation wait whose transaction is not remembered. -/
theorem waiting_of_reply (hd : d.Coherent id) {f : Flight R} (hf : d.find? id = some f)
    (hphase : f.phase = .reply) (ht : d.reconciler.ledger.observed.contains f.key t = false) :
    ∃ f', (d.step (.reply id (.ok t))).find? id = some f' ∧ f'.key = f.key ∧
      f'.expects = some (.awaiting t) ∧ f'.isReading = false := by
  obtain ⟨hsignal,_,hpending⟩ := hd.submitted hf hphase
  obtain ⟨i,key,m,phase,signal⟩ := f
  obtain rfl : phase = _ := hphase
  obtain rfl : signal = _ := hsignal
  dsimp only at ht hpending
  obtain ⟨p,hp,hid,_⟩ := Reconciler.progress?_eq_some.mp hpending
  have hawait := Reconciler.awaitTxid_of_some (Reconciler.find?_eq_some.mpr ⟨hp,hid⟩) t
  rw [if_neg (Bool.eq_false_iff.mp ht)] at hawait
  refine ⟨⟨id,key,m,.confirmation t (d.now + d.timeout),none⟩,?_,rfl,rfl,rfl⟩
  simp only [step,act,reply,hf,hawait]
  rw [find?_requeue,if_pos rfl]

omit [Row R] in
/-- The stream's word on a mutation that waits for its transaction ends its submission, or reaches it
before the row that it asked for. -/
theorem waiting_wake_of_mem (hd : d.Coherent id) {f : Flight R} (hf : d.find? id = some f)
    (he : f.expects = some (.awaiting t)) {cs : List Confirmation} {r : Reconciler R}
    (hr : Reconciler.Heard cs d.reconciler r) (hmem : ∃ c ∈ cs, c.id = id) :
    (results id (({ d with reconciler := r } : Desk R).wake cs).2 = [.ok (.confirmed f.key t)] ∧
      f.isReading = false) ∨
    (results id (({ d with reconciler := r } : Desk R).wake cs).2 = [] ∧
      (({ d with reconciler := r } : Desk R).wake cs).1.Signalled f.key id t ∧ f.isReading = true) := by
  have honly : ∀ c ∈ cs, c.id = id → c.txid = t := by
    intro c hc hcid
    have hbefore := (hr.gone c hc).1
    rw [hcid,(hd.flying f hf).2] at hbefore
    split at hbefore
    · exact Progress.awaiting.inj (Option.some.inj (hbefore.symm.trans he))
    · cases hbefore
  rcases (expects_eq_awaiting he).2 with ⟨deadline,hphase⟩ | hphase
  · left
    obtain ⟨_,c,hc,hcid,hresults⟩ := wake_of_confirmation (d := { d with reconciler := r }) hf hphase hmem
    rw [honly c hc hcid] at hresults
    exact ⟨hresults,by rw [Flight.isReading,hphase]⟩
  · right
    have hreading : f.isReading = true := by rw [Flight.isReading,hphase]
    obtain ⟨hresults,c,hc,hcid,hfind⟩ := wake_of_reading (d := { d with reconciler := r }) hf hphase hmem
    rw [honly c hc hcid] at hfind
    exact ⟨hresults,⟨_,hfind,rfl,hreading,rfl⟩,hreading⟩

/-- A batch with the transaction of a mutation that waits for it confirms the mutation. -/
theorem batch_confirming (hd : d.Coherent id) {f : Flight R} (hf : d.find? id = some f)
    (he : f.expects = some (.awaiting t)) {cs : List (RemoteChange R)} (hcs : Carries cs f.key t) :
    d.Confirming (.remote cs) f.key id t := by
  have hpending : d.reconciler.progress? f.key id = some (.awaiting t) := by
    rw [(hd.flying f hf).2,if_pos rfl,he]
  obtain ⟨p,hp,hid,hprogress⟩ := Reconciler.progress?_eq_some.mp hpending
  obtain ⟨hn,hconf⟩ := Ledger.receiveAll_of_awaited hp hprogress hcs
  rw [hid] at hconf
  have hmem : ∃ c ∈ (d.reconciler.applyRemote cs).2, c.id = id := by
    have hself : ⟨id,f.key,t⟩ ∈ (d.reconciler.ledger.receiveAll cs).confirmed.filter (·.key = f.key) := by
      rw [hconf]
      exact List.mem_singleton_self _
    exact ⟨_,(List.mem_filter.mp hself).1,rfl⟩
  have hresult := waiting_wake_of_mem hd hf he (Reconciler.heard_applyRemote d.reconciler cs) hmem
  refine ⟨Option.ne_none_iff_exists'.mpr ⟨_,hf⟩,Option.ne_none_iff_exists'.mpr ⟨_,hpending⟩,?_,
    ruling_eq ?_,?_,fun hprompt => ?_⟩
  · exact (congrArg (·.ledger.pending.find? f.key) (reconciler_remote d cs)).trans hn
  · refine (congrArg (·.verdicts f.key) (reconciler_remote d cs)).trans ?_
    rw [Reconciler.verdicts_applyRemote,hconf]
    rfl
  · refine reached_singleton hd (remote_undisturbing id cs).1 ?_
    exact hresult.imp And.left fun h => ⟨h.1,h.2.1⟩
  · rcases hresult with ⟨hresult,_⟩ | ⟨_,_,hreading⟩
    · exact hresult
    · cases hreading.symm.trans (hprompt f hf)

/-! ### Runs -/

/-- A submission ends with a result, at the latest when the row arrives that it waits for. -/
def Returns (d : Desk R) (as : List (Action R)) (id : Nat) (x : Except MutationError Outcome) : Prop :=
  results id (d.effects as) = [x] ∨
    (results id (d.effects as) = [] ∧ (∃ f, (d.after as).find? id = some f ∧ f.isReading) ∧
      ∀ answer, results id (d.effects (as ++ [.read id answer])) = [x])

/-- A run confirms a mutation: its submission returns the transaction, there is one verdict on it, and
when its record goes the store shows the last value that the server gave. -/
structure Confirms (g : Account R) (d : Desk R) (as : List (Action R)) (key : String) (id : Nat) (t : Txid) :
    Prop where
  returned : d.Returns as id (.ok (.confirmed key t))
  ruled : d.verdictsOn key id as = [.confirmed key t]
  left : ∃ u a v, as = u ++ a::v ∧ (d.after u).retires a key id ∧
    (d.Along (fun d a => a.Faithful d) (u ++ [a]) →
      (d.after (u ++ [a])).row? key = (g.along d (u ++ [a])).given key)

theorem Reached.returns (hd : d.Coherent id) {as : List (Action R)} (ha : Open as)
    (h : d.Reached as key id t) : d.Returns as id (.ok (.confirmed key t)) := by
  rcases h with ⟨hresults,_⟩ | ⟨hresults,hs⟩
  · exact .inl hresults
  · have hflight := hs
    obtain ⟨f,hf,_,hreading,_⟩ := hflight
    refine .inr ⟨hresults,⟨f,hf,hreading⟩,fun answer => ?_⟩
    rw [effects_append,results_append,hresults,effects,effects,List.append_nil]
    exact (signalled_read (coherent_after hd ha) hs answer).1

/-- What a submission is told by the action that confirms its mutation, it returns. -/
theorem reached_of_confirming (hd : d.Coherent id) {u v : List (Action R)} {a : Action R} (hu : Open u)
    (ha : a ≠ .close) (hv : Undisturbed id v) (hc : (d.after u).Confirming a key id t) :
    d.Reached (u ++ a::v) key id t := by
  have hdua : ((d.after u).step a).Coherent id := (coherent_step (coherent_after hd hu) ha).1
  have hresults : results id (d.effects u) = [] := by
    rcases results_effects hd hu with h | hspent
    · exact h
    · exact absurd hspent.landed hc.flying
  have hrest : (d.after u).Reached (a::v) key id t := by
    rcases hc.reached with ⟨hresult,hspent⟩ | ⟨hresult,hs⟩
    · rw [effects,effects,List.append_nil] at hresult
      exact reached_cons_of_spent hresult hspent hv.open
    · rw [effects,effects,List.append_nil] at hresult
      exact reached_cons hresult (reached_of_signalled hdua hs hv)
  rw [Reached,effects_append,results_append,hresults,after_append]
  exact hrest

/-- There is no verdict on a mutation before the action that ends its record. -/
theorem verdictsOn_split (hd : d.Coherent id) {u : List (Action R)} (hu : Open u) {a : Action R}
    (hp : (d.after u).reconciler.progress? key id ≠ none) (hn : ((d.after u).step a).Retired key id)
    (v : List (Action R)) : d.verdictsOn key id (u ++ a::v) = (d.after u).ruling a key := by
  have hverdicts : d.verdictsOn key id u = [] := by
    rcases verdictsOn_eq hd hu with h | hretired
    · exact h
    · exact absurd hretired.gone hp
  have hsome : ((d.after u).reconciler.find? key id).isSome := by
    rw [isSome_find?,Option.isSome_iff_ne_none]
    exact hp
  rw [verdictsOn_append,hverdicts,verdictsOn,if_pos hsome,verdictsOn_of_retired hn]
  exact List.append_nil _

/-- A mutation that some action of a run confirms is confirmed by the run. -/
theorem confirms_of_confirming {g : Account R} (hg : d.reconciler.Overlaid g) (hd : d.Coherent id)
    {u v : List (Action R)} {a : Action R} (ha : Undisturbed id (u ++ a::v))
    (hc : (d.after u).Confirming a key id t) : Confirms g d (u ++ a::v) key id t := by
  obtain ⟨hu,hav⟩ := undisturbed_append.mp ha
  obtain ⟨haopen,hv⟩ := undisturbed_cons.mp hav
  have hdu : (d.after u).Coherent id := coherent_after hd hu.open
  have hsome : ((d.after u).reconciler.find? key id).isSome := by
    rw [isSome_find?,Option.isSome_iff_ne_none]
    exact hc.pending
  refine ⟨(reached_of_confirming hd hu.open haopen.1 hv hc).returns hd ha.open,?_,u,a,v,rfl,?_,
    fun hfaithful => ?_⟩
  · rw [verdictsOn_split hd hu.open hc.pending (hc.retired hdu),hc.ruled]
  · rw [retires,hsome,hc.gone]
    rfl
  · have hgone : (d.after (u ++ [a])).reconciler.ledger.pending.find? key = none := by
      rw [after_append]
      exact hc.gone
    exact Overlay.settled (overlaid_after hg hfaithful) key hgone

private theorem confirms_of_early {g : Account R} (hg : d.reconciler.Overlaid g) (hd : d.Coherent id)
    {pre post : List (Action R)} (hpre : Undisturbed id pre) (hpost : Undisturbed id post) {f : Flight R}
    (hf : (d.after pre).find? id = some f) (hphase : f.phase = .reply)
    (ht : (d.after pre).reconciler.ledger.observed.contains f.key t = true) :
    Confirms g d (pre ++ .reply id (.ok t)::post) f.key id t := by
  exact confirms_of_confirming hg hd
    (undisturbed_append.mpr ⟨hpre,undisturbed_cons.mpr ⟨reply_undisturbing _ _ _,hpost⟩⟩)
    (reply_confirming (coherent_after hd hpre.open) hf hphase ht)

private theorem confirms_of_late {g : Account R} (hg : d.reconciler.Overlaid g) (hd : d.Coherent id)
    {pre u v : List (Action R)} {cs : List (RemoteChange R)} (hpre : Undisturbed id pre)
    (hpost : Undisturbed id (u ++ .remote cs::v)) {f : Flight R}
    (hf : (d.after pre).find? id = some f) (hphase : f.phase = .reply)
    (hp : (d.after (pre ++ .reply id (.ok t)::u)).reconciler.progress? f.key id ≠ none)
    (hcs : Carries cs f.key t) :
    Confirms g d (pre ++ .reply id (.ok t)::(u ++ .remote cs::v)) f.key id t := by
  have hreply := reply_undisturbing (R := R) id id (.ok t)
  have hdpre : (d.after pre).Coherent id := coherent_after hd hpre.open
  have hu := (undisturbed_append.mp hpost).1
  have hall : Undisturbed id ((pre ++ .reply id (.ok t)::u) ++ .remote cs::v) := by
    rw [List.append_assoc]
    exact undisturbed_append.mpr ⟨hpre,undisturbed_cons.mpr ⟨hreply,hpost⟩⟩
  have hsplit : d.after (pre ++ .reply id (.ok t)::u) =
      ((d.after pre).step (.reply id (.ok t))).after u := after_append _ _ _
  cases ht : (d.after pre).reconciler.ledger.observed.contains f.key t with
  | true =>
    -- The answer itself would have confirmed the mutation, and its record would be gone.
    have hretired := (reply_confirming hdpre hf hphase ht).retired hdpre
    rw [hsplit] at hp
    exact absurd (retired_after hretired u).gone hp
  | false =>
    obtain ⟨f',hf',hk,he,_⟩ := waiting_of_reply hdpre hf hphase ht
    rw [hsplit,← hk] at hp
    obtain ⟨f'',hf'',hk',he'⟩ := waiting_after (coherent_step hdpre hreply.1).1 hf' he hu hp
    have hkey : f''.key = f.key := hk'.trans hk
    rw [← hsplit] at hf''
    have hc := batch_confirming (coherent_after hd (open_append.mp hall.open).1) hf'' he' (hkey.symm ▸ hcs)
    rw [hkey] at hc
    have hconfirms := confirms_of_confirming hg hd hall hc
    rwa [List.append_assoc] at hconfirms

/-! ### The answer and the batch in either order -/

private theorem record?_reply {f : Flight R} (hf : d.find? id = some f) (hphase : f.phase = .reply) {k : String}
    (hk : k ≠ f.key) : (d.step (.reply id (.ok t))).record? k = d.record? k := by
  obtain ⟨i,key,m,phase,signal⟩ := f
  obtain rfl : phase = _ := hphase
  have hother : ∀ r b, d.reconciler.awaitTxid key id t = .ok (r,b) →
      r.ledger.pending.find? k = d.record? k := by
    intro r b hr
    obtain ⟨p,_,_,_,rfl⟩ := Reconciler.awaitTxid_eq_ok hr
    split
    · exact Table.find?_erase_ne d.reconciler.ledger.pending hk
    · exact Table.find?_insert_ne d.reconciler.ledger.pending _ hk
  simp only [step,act,reply,hf]
  split
  · rfl
  · next r hr => exact hother r true hr
  · next r hr => exact hother r false hr

/-- A batch does not touch a submission that waits for the server's answer. -/
theorem find?_remote_of_reply (hd : d.Coherent id) {f : Flight R} (hf : d.find? id = some f)
    (hphase : f.phase = .reply) (cs : List (RemoteChange R)) :
    (d.step (.remote cs)).find? id = some f ∧ results id (d.act (.remote cs)).2 = [] := by
  have hheard := Reconciler.heard_applyRemote d.reconciler cs
  have hc : ∀ c ∈ (d.reconciler.applyRemote cs).2, c.id ≠ id := by
    rintro c hc rfl
    have hbefore := (hheard.gone c hc).1
    rw [(hd.flying f hf).2,(hd.submitted hf hphase).2.1] at hbefore
    split at hbefore <;> cases hbefore
  obtain ⟨hhides,hresults⟩ := hides_wake hheard hc
  exact ⟨hhides.flight.trans hf,hresults⟩

omit [Row R] in
private theorem not_reading {f : Flight R} (hf : d.find? id = some f) (hf' : f.isReading = false) :
    ∀ x, d.find? id = some x → x.isReading = false := by
  intro x hx
  rw [← Option.some.inj (hf.symm.trans hx),hf']

private theorem reply_then_remote (hd : d.Coherent id) {f : Flight R} (hf : d.find? id = some f)
    (hphase : f.phase = .reply) {cs : List (RemoteChange R)} (hcs : Carries cs f.key t) :
    results id (d.effects [.reply id (.ok t),.remote cs]) = [.ok (.confirmed f.key t)] ∧
      (d.after [.reply id (.ok t),.remote cs]).record? f.key = none := by
  obtain ⟨hreply,hended⟩ := coherent_step hd (reply_undisturbing id id (.ok t)).1
  have hsplit : results id (d.effects [.reply id (.ok t),.remote cs]) =
      results id (d.act (.reply id (.ok t))).2 ++
        results id ((d.step (.reply id (.ok t))).effects [.remote cs]) := results_append _ _ _
  rw [hsplit]
  cases hc : d.reconciler.ledger.observed.contains f.key t with
  | true =>
    have hconfirming := reply_confirming hd hf hphase hc
    have hresult := hconfirming.prompt (not_reading hf (by rw [Flight.isReading,hphase]))
    have hspent : (d.step (.reply id (.ok t))).Spent id := by
      rcases hended with hn | hspent
      · cases hresult.symm.trans hn
      · exact hspent
    have hopen : Open [.remote cs] :=
      open_cons.mpr ⟨(remote_undisturbing id cs).1,List.forall_mem_nil _⟩
    have hrest := (spent_after hspent hopen).2
    refine ⟨by rw [hresult,hrest]; rfl,?_⟩
    exact (congrArg (·.ledger.pending.find? f.key) (reconciler_remote _ cs)).trans
      (Ledger.receiveAll_of_absent hconfirming.gone cs).1
  | false =>
    obtain ⟨f',hf',hk,he,hreading⟩ := waiting_of_reply hd hf hphase hc
    have hconfirming := batch_confirming hreply hf' he (hk.symm ▸ hcs)
    have hresult := hconfirming.prompt (not_reading hf' hreading)
    have hsilent : results id (d.act (.reply id (.ok t))).2 = [] := by
      rcases hended with hn | hspent
      · exact hn
      · cases hspent.landed.symm.trans hf'
    rw [hk] at hresult
    refine ⟨?_,hk ▸ hconfirming.gone⟩
    rw [hsilent,effects,effects,List.append_nil,hresult]
    rfl

private theorem remote_then_reply (hd : d.Coherent id) {f : Flight R} (hf : d.find? id = some f)
    (hphase : f.phase = .reply) {cs : List (RemoteChange R)}
    (ht : (d.step (.remote cs)).reconciler.ledger.observed.contains f.key t = true) :
    results id (d.effects [.remote cs,.reply id (.ok t)]) = [.ok (.confirmed f.key t)] ∧
      (d.after [.remote cs,.reply id (.ok t)]).record? f.key = none := by
  obtain ⟨hstays,hquiet⟩ := find?_remote_of_reply hd hf hphase cs
  have hremote := (coherent_step hd (remote_undisturbing id cs).1).1
  have hconfirming := reply_confirming hremote hstays hphase ht
  have hresult := hconfirming.prompt (not_reading hstays (by rw [Flight.isReading,hphase]))
  refine ⟨?_,hconfirming.gone⟩
  rw [effects,effects,effects,results_append,results_append,hquiet,hresult]
  rfl

/-- A batch with the transaction and the answer that names it leave the same rows in either order. -/
theorem rows_exchange {g : Account R} (hg : d.reconciler.Overlaid g) (hd : d.Coherent id)
    {f : Flight R} (hf : d.find? id = some f) (hphase : f.phase = .reply) {cs : List (RemoteChange R)}
    (hcs : Carries cs f.key t) (hfiled : ∀ c ∈ cs, FiledUnder c.key c.row)
    (ht : (d.step (.remote cs)).reconciler.ledger.observed.contains f.key t = true) :
    (d.after [.reply id (.ok t),.remote cs]).reconciler.store.rows =
      (d.after [.remote cs,.reply id (.ok t)]).reconciler.store.rows := by
  have hearly : d.Along (fun d a => a.Faithful d) [.remote cs,.reply id (.ok t)] :=
    ⟨hfiled,trivial,trivial⟩
  have hlate : d.Along (fun d a => a.Faithful d) [.reply id (.ok t),.remote cs] :=
    ⟨trivial,hfiled,trivial⟩
  -- The server gives the same values in both orders, and the same records are left.
  refine Overlay.rows_eq (overlaid_after hg hearly) (overlaid_after hg hlate) fun k => ?_
  by_cases hk : k = f.key
  · subst hk
    exact iff_of_true (reply_then_remote hd hf hphase hcs).2 (remote_then_reply hd hf hphase ht).2
  · have hremote : ∀ e : Desk R, (e.step (.remote cs)).record? k =
        (e.reconciler.ledger.receiveAll cs).ledger.pending.find? k := fun e =>
      congrArg (·.ledger.pending.find? k) (reconciler_remote e cs)
    have hreply : (d.after [.remote cs,.reply id (.ok t)]).record? k = (d.step (.remote cs)).record? k :=
      record?_reply (find?_remote_of_reply hd hf hphase cs).1 hphase hk
    have hboth : (d.after [.reply id (.ok t),.remote cs]).record? k =
        (d.after [.remote cs,.reply id (.ok t)]).record? k := by
      rw [hreply,hremote,after_cons,after_cons,after_nil,hremote]
      exact Ledger.find?_receiveAll_congr (record?_reply hf hphase hk) cs
    exact Eq.congr_left hboth

private theorem contains_after_batch {capacity timeout : Nat} {pre : List (Action R)}
    (hpre : Undisturbed id pre) {f : Flight R}
    (hf : ((create capacity timeout).after pre).find? id = some f) (hphase : f.phase = .reply)
    {cs : List (RemoteChange R)} (hcs : Carries cs f.key t)
    (hfew : ((create capacity timeout).newcomers f.key t (pre ++ [.remote cs])).length <
      Reconciler.observedCapacity) :
    (((create capacity timeout).after pre).step (.remote cs)).reconciler.ledger.observed.contains f.key t =
      true := by
  have hd : (create capacity timeout : Desk R).Coherent id := coherent_create capacity timeout
  have hdpre := coherent_after hd hpre.open
  have hbatch : Undisturbed id (pre ++ [.remote cs]) :=
    undisturbed_append.mpr ⟨hpre,undisturbed_cons.mpr ⟨remote_undisturbing id cs,List.forall_mem_nil _⟩⟩
  have hpending := Option.ne_none_iff_exists'.mpr ⟨_,(hdpre.submitted hf hphase).2.2⟩
  have hlast : ((create capacity timeout).after (pre ++ [.remote cs])).find? id = some f := by
    rw [after_append]
    exact (find?_remote_of_reply hdpre hf hphase cs).1
  obtain ⟨c,hc,hk,ht⟩ := hcs
  have hseen := contains_after
    (mem_recordings_of_reply hd (v := []) hbatch hlast hphase hpending hc hk ht) hfew
  rw [after_append] at hseen
  exact hseen

/-- From the moment a mutation is staged until its record goes, a batch with the transaction as which the
server accepts it confirms it. A batch that comes before the answer does so unless as many other
transactions are recorded meanwhile as are remembered. A batch and the answer next to each other can be
exchanged. -/
theorem confirmed_in_any_order (capacity timeout : Nat) {pre : List (Action R)} {f : Flight R}
    (hpre : Undisturbed f.id pre) (hf : ((create capacity timeout).after pre).find? f.id = some f)
    (hphase : f.phase = .reply) (t : Txid) :
    (∀ (u v post : List (Action R)) cs, pre = u ++ .remote cs::v → Undisturbed f.id post →
      ((create capacity timeout).after u).reconciler.progress? f.key f.id ≠ none → Carries cs f.key t →
      ((create capacity timeout).newcomers f.key t pre).length < Reconciler.observedCapacity →
      Confirms .blank (create capacity timeout) (pre ++ .reply f.id (.ok t)::post) f.key f.id t) ∧
    (∀ (u v : List (Action R)) cs, Undisturbed f.id (u ++ .remote cs::v) →
      ((create capacity timeout).after (pre ++ .reply f.id (.ok t)::u)).reconciler.progress? f.key f.id ≠
        none → Carries cs f.key t →
      Confirms .blank (create capacity timeout) (pre ++ .reply f.id (.ok t)::(u ++ .remote cs::v)) f.key
        f.id t) ∧
    (∀ cs, (create capacity timeout).Along (fun d a => a.Faithful d) (pre ++ [.remote cs]) →
      Carries cs f.key t →
      ((create capacity timeout).newcomers f.key t (pre ++ [.remote cs])).length <
        Reconciler.observedCapacity →
      results f.id ((create capacity timeout).effects (pre ++ [.reply f.id (.ok t),.remote cs])) =
        [.ok (.confirmed f.key t)] ∧
      results f.id ((create capacity timeout).effects (pre ++ [.remote cs,.reply f.id (.ok t)])) =
        [.ok (.confirmed f.key t)] ∧
      ((create capacity timeout).after (pre ++ [.reply f.id (.ok t),.remote cs])).reconciler.store.rows =
        ((create capacity timeout).after
          (pre ++ [.remote cs,.reply f.id (.ok t)])).reconciler.store.rows) := by
  have hd : (create capacity timeout : Desk R).Coherent f.id := coherent_create capacity timeout
  have hdpre := coherent_after hd hpre.open
  refine ⟨fun u v post cs hsplit hpost hpending hcs hfew => ?_,
    fun u v cs hpost hpending hcs => ?_,fun cs hfaithful hcs hfew => ?_⟩
  · obtain ⟨c,hc,hk,ht⟩ := hcs
    have hmem : (f.key,t) ∈ (create capacity timeout).recordings pre := by
      subst hsplit
      exact mem_recordings_of_reply hd hpre hf hphase hpending hc hk ht
    exact confirms_of_early (overlaid_create capacity timeout) hd hpre hpost hf hphase
      (contains_after hmem hfew)
  · exact confirms_of_late (overlaid_create capacity timeout) hd hpre hpost hf hphase hpending hcs
  · obtain ⟨hfaithful,hfiled,_⟩ := along_append.mp hfaithful
    have ht := contains_after_batch hpre hf hphase hcs hfew
    have hsilent : results f.id ((create capacity timeout).effects pre) = [] := by
      rcases results_effects hd hpre.open with h | hspent
      · exact h
      · cases hspent.landed.symm.trans hf
    rw [effects_append,effects_append,results_append,results_append,hsilent,List.nil_append,
      List.nil_append,after_append,after_append]
    exact ⟨(reply_then_remote hdpre hf hphase hcs).1,(remote_then_reply hdpre hf hphase ht).1,
      rows_exchange (overlaid_after (overlaid_create capacity timeout) hfaithful) hdpre hf hphase hcs
        hfiled ht⟩

/-- A feature is changed here, and the stream shows transaction 42 before the server's answer. -/
def hastyStream : List (Action Entity) := [
  .remote [⟨"E1",some (.inState "E1" .ready),[]⟩],
  .stage "" (Entity.setStatus "E1" .validated),
  .submit 1,
  .remote [⟨"E1",some (.inState "E1" .validated),[⟨42⟩]⟩]]

/-- The submission of that change. -/
def hastyFlight : Flight Entity := ⟨1,"E1",Entity.setStatus "E1" .validated,.reply,none⟩

/-- The change is transaction 42, or it is transaction 43, which the stream shows while the row is read
or next to the answer. -/
theorem confirmed_in_any_order_hastyStream :
    Confirms .blank (create 8 30000) (hastyStream ++ [.reply 1 (.ok ⟨42⟩),.advance 30000]) "E1" 1 ⟨42⟩ ∧
    Confirms .blank (create 8 30000) (hastyStream ++ .reply 1 (.ok ⟨43⟩)::([.advance 30000,.expire 1] ++
      .remote [⟨"E1",some (.inState "E1" .validated),[⟨43⟩]⟩]::[.read 1 (.ok none)])) "E1" 1 ⟨43⟩ ∧
    results 1 ((create 8 30000).effects (hastyStream ++ [.reply 1 (.ok ⟨43⟩),
      .remote [⟨"E1",some (.inState "E1" .markedBad),[⟨43⟩]⟩]])) = [.ok (.confirmed "E1" ⟨43⟩)] := by
  have hpre : Undisturbed 1 hastyStream := by simp [Undisturbed,hastyStream]
  have hf : ((create 8 30000).after hastyStream).find? 1 = some hastyFlight := by decide +kernel
  have hearly := (confirmed_in_any_order (f := hastyFlight) 8 30000 hpre hf rfl ⟨42⟩).1
  have hlate := (confirmed_in_any_order (f := hastyFlight) 8 30000 hpre hf rfl ⟨43⟩).2
  refine ⟨?_,?_,(hlate.2 _ ?_ ⟨_,List.mem_singleton_self _,rfl,List.mem_singleton_self _⟩ ?_).1⟩
  · exact hearly (hastyStream.take 3) [] [.advance 30000] _ rfl (by simp [Undisturbed]) (by decide +kernel)
      ⟨_,List.mem_singleton_self _,rfl,List.mem_singleton_self _⟩ (by decide +kernel)
  · exact hlate.1 [.advance 30000,.expire 1] [.read 1 (.ok none)] _ (by simp [Undisturbed])
      (by decide +kernel) ⟨_,List.mem_singleton_self _,rfl,List.mem_singleton_self _⟩
  · refine ⟨?_,trivial,trivial,?_,?_,trivial⟩
    all_goals
      intro c hc
      rw [List.mem_singleton.mp hc]
      exact filedUnder_some rfl
  · decide +kernel

end Desk
end FieldReplica
