import FieldReplica.Proofs.Departure

/-!
# The grounds of a confirmation

A submission returns a transaction only if the server named that transaction for its mutation, and only on
the server's word: a change to the key that carries the transaction, or a value of the server that shows
what the mutation does, and either of them while the mutation was pending.
-/
namespace FieldReplica

variable {R : Type} [Row R]

omit [Row R] in
/-- What is remembered of a batch was in the batch. -/
theorem Ledger.carries_of_recordings {l : Ledger R} {key : String} {t : Txid} {cs : List (RemoteChange R)}
    (h : (key,t) ∈ l.recordings cs) : Carries cs key t := (mem_of_recordings h).2

namespace Reconciler

omit [Row R] in
private theorem error_of_beginSubmit {r : Reconciler R} {s : Staged} {e : MutationError}
    (h : r.beginSubmit s = .error e) : e = .closed := by
  rw [beginSubmit] at h
  split at h
  · cases h
  · split at h
    · exact (Except.error.inj h).symm
    · cases h

private theorem error_of_awaitTxid {r : Reconciler R} {key : String} {id : Nat} {t : Txid} {e : MutationError}
    (h : r.awaitTxid key id t = .error e) : e = .closed := by
  rw [awaitTxid] at h
  split at h
  · exact (Except.error.inj h).symm
  · split at h <;> cases h

end Reconciler

namespace Desk

variable {d : Desk R} {id : Nat} {key : String} {t : Txid}

/-! ### Results that confirm -/

private theorem mem_results_effects {as : List (Action R)} {x : Except MutationError Outcome}
    (h : x ∈ results id (d.effects as)) : ∃ u a v, as = u ++ a::v ∧ x ∈ results id ((d.after u).act a).2 := by
  induction as generalizing d with
  | nil => cases h
  | cons a as ih =>
    rw [effects,results_append] at h
    rcases List.mem_append.mp h with h | h
    · exact ⟨[],a,as,rfl,h⟩
    · obtain ⟨u,b,v,rfl,hx⟩ := ih h
      exact ⟨a::u,b,v,rfl,hx⟩

omit [Row R] in
/-- The stream's word ends a submission only if it is about its mutation. -/
theorem word_of_result {cs : List Confirmation} {x : Except MutationError Outcome}
    (h : x ∈ results id (d.wake cs).2) :
    ∃ f c, d.find? id = some f ∧ c ∈ cs ∧ c.id = id ∧ x = .ok (.confirmed f.key c.txid) := by
  cases hf : d.find? id with
  | none =>
    rw [(wake_of_none hf cs).2] at h
    cases h
  | some f =>
    by_cases hc : ∃ c ∈ cs, c.id = id
    · cases hphase : f.phase with
      | reply =>
        rw [(wake_of_reply hf hphase cs).2] at h
        cases h
      | confirmation t deadline =>
        obtain ⟨_,c,hcs,hid,hresults⟩ := wake_of_confirmation hf hphase hc
        rw [hresults] at h
        exact ⟨f,c,rfl,hcs,hid,List.mem_singleton.mp h⟩
      | reading t =>
        rw [(wake_of_reading hf hphase hc).1] at h
        cases h
    · rw [(wake_of_absent fun c hcs hid => hc ⟨c,hcs,hid⟩).2] at h
      cases h

private theorem ends_of_told {l : List (Nat × Mutation R)} (hl : d.Enrolled l) {a : Action R} {f : Flight R}
    {c : Confirmation} (hf : d.find? id = some f) (hc : c ∈ d.words a) (hid : c.id = id) :
    d.Ends f.key id a (.confirmed c.txid) := by
  have hends := ends_of_word hc
  obtain ⟨p,hp,hpid⟩ := hends.record
  rw [hid] at hends hpid
  have hprogress : d.reconciler.progress? c.key id = some p.progress := by
    rw [Reconciler.progress?_of_some hp,if_pos hpid]
  rw [hl.key_of_flight hf hprogress]
  exact hends

omit [Row R] in
private theorem mem_results_resolved {i : Nat} {x y : Except MutationError Outcome}
    (h : y ∈ results id ([.resolved i x] : List (Effect R))) : i = id ∧ y = x := by
  rw [results_resolved] at h
  split at h
  · next hid => exact ⟨hid,List.mem_singleton.mp h⟩
  · cases h

/-- What a submission returns, with the action that makes it return. -/
inductive Returning (d : Desk R) (id : Nat) : Action R → Except MutationError Outcome → Prop
  | closed {a : Action R} : Returning d id a (.error .closed)
  | cancelled {i : Nat} {key : String} : Returning d id (.submit i) (.ok (.cancelled key))
  | refused {e : AdapterError} : Returning d id (.reply id (.error e)) (.error (.ofAdapter e))
  | ended {a : Action R} {key : String} {t : Txid} : d.Ends key id a (.confirmed t) →
      Returning d id a (.ok (.confirmed key t))
  | word {a : Action R} {f : Flight R} {c : Confirmation} : d.find? id = some f → c ∈ d.words a → c.id = id →
      Returning d id a (.ok (.confirmed f.key c.txid))
  | told {answer : Except AdapterError (Option R)} {f : Flight R} {t : Txid} : d.find? id = some f →
      f.signal = some t → Returning d id (.read id answer) (.ok (.confirmed f.key t))
  | lost {a : Action R} {key : String} {t : Txid} : d.Ends key id a (.rolledBack (.lost key t)) →
      Returning d id a (.error (.lost key t))

private theorem returning_of_submit {i : Nat} {x : Except MutationError Outcome} (h : x ∈ results id (d.submit i).2) :
    d.Returning id (.submit i) x := by
  rw [submit] at h
  split at h
  · cases h
  · dsimp only at h
    split at h
    · next hs =>
      rw [(mem_results_resolved h).2,Reconciler.error_of_beginSubmit hs]
      exact .closed
    · rw [(mem_results_resolved h).2]
      exact .cancelled
    · cases h

private theorem returning_of_reply {i : Nat} {answer : Except AdapterError Txid} {x : Except MutationError Outcome}
    (h : x ∈ results id (d.reply i answer).2) : d.Returning id (.reply i answer) x := by
  rw [reply] at h
  split at h
  · next j k m signal hf =>
    cases answer with
    | error e =>
      obtain ⟨rfl,rfl⟩ := mem_results_resolved h
      exact .refused
    | ok t =>
      dsimp only at h
      split at h
      · next hs =>
        rw [(mem_results_resolved h).2,Reconciler.error_of_awaitTxid hs]
        exact .closed
      · next r hr =>
        obtain ⟨rfl,rfl⟩ := mem_results_resolved h
        obtain ⟨p,hp,hid,hseen,_⟩ := Reconciler.awaitTxid_eq_ok hr
        exact .ended (.overtaken hf rfl rfl hp hid hseen.symm)
      · cases h
  · cases h

private theorem returning_of_read {i : Nat} {answer : Except AdapterError (Option R)}
    {x : Except MutationError Outcome} (h : x ∈ results id (d.read i answer).2) :
    d.Returning id (.read i answer) x := by
  rw [read] at h
  split at h
  · next j k m t signal hf =>
    cases signal with
    | some s =>
      obtain ⟨rfl,rfl⟩ := mem_results_resolved h
      exact .told hf rfl
    | none =>
      obtain ⟨rfl,hx⟩ := mem_results_resolved h
      have hsettled : x = (d.reconciler.settle k i t m answer).2 := hx
      cases hp : d.reconciler.find? k i with
      | none =>
        rw [hsettled,Reconciler.settle_of_none hp]
        exact .closed
      | some p =>
        obtain ⟨hrecord,hid⟩ := Reconciler.find?_eq_some.mp hp
        rw [hsettled,Reconciler.settle_of_some hp]
        cases answer with
        | error e =>
          refine .lost (.lost hf rfl rfl rfl hrecord hid ?_)
          intro server hserver
          cases hserver
        | ok server =>
          dsimp only [Reconciler.verdict]
          split
          · next hreflected => exact .ended (.found hf rfl rfl rfl hrecord hid hreflected)
          · next hother =>
            refine .lost (.lost hf rfl rfl rfl hrecord hid ?_)
            intro s hs
            rw [← Except.ok.inj hs]
            exact Bool.eq_false_iff.mpr hother
  · cases h

/-- A submission returns nothing else. -/
theorem returning_of_result {a : Action R} {x : Except MutationError Outcome}
    (h : x ∈ results id (d.act a).2) : d.Returning id a x := by
  have hwake : ∀ r : Reconciler R,
      x ∈ results id (({ d with reconciler := r } : Desk R).wake (d.words a)).2 → d.Returning id a x := by
    intro r hx
    obtain ⟨f,c,hf,hc,hid,rfl⟩ := word_of_result hx
    exact .word hf hc hid
  cases a with
  | stage fresh m =>
    rw [act] at h
    split at h <;> cases h
  | discard i | abort i | advance ms | seed rows => cases h
  | submit i => exact returning_of_submit h
  | reply i answer => exact returning_of_reply h
  | expire i =>
    rw [act,expire] at h
    split at h
    · split at h <;> cases h
    · cases h
  | read i answer => exact returning_of_read h
  | remote cs => exact hwake _ h
  | snapshot rows resync => exact hwake _ h
  | close =>
    obtain ⟨e,he,hx⟩ := List.mem_filterMap.mp h
    obtain ⟨f,_,rfl⟩ := List.mem_map.mp he
    dsimp only at hx
    split at hx
    · rw [← Option.some.inj hx]
      exact .closed
    · cases hx

/-- A submission returns a transaction when its record ends as confirmed, or when the row arrives and it
has been told before. -/
theorem ends_of_result {l : List (Nat × Mutation R)} (hl : d.Enrolled l) {a : Action R}
    (h : .ok (.confirmed key t) ∈ results id (d.act a).2) : d.Ends key id a (.confirmed t) ∨
      ∃ f, d.find? id = some f ∧ f.key = key ∧ f.signal = some t := by
  cases returning_of_result h with
  | ended hends => exact .inl hends
  | word hf hc hid => exact .inl (ends_of_told hl hf hc hid)
  | told hf hs => exact .inr ⟨_,hf,rfl,hs⟩

/-- An action of a run has ended the record of a mutation as confirmed. -/
def Ended (d : Desk R) (as : List (Action R)) (key : String) (id : Nat) (t : Txid) : Prop :=
  ∃ u a v, as = u ++ a::v ∧ (d.after u).Ends key id a (.confirmed t)

theorem Ended.append {as : List (Action R)} (h : d.Ended as key id t) (bs : List (Action R)) :
    d.Ended (as ++ bs) key id t := by
  obtain ⟨u,a,v,rfl,hends⟩ := h
  exact ⟨u,a,v ++ bs,by simp,hends⟩

private theorem ended_of_signal (capacity timeout : Nat) {as : List (Action R)} {f : Flight R}
    (hf : ((create capacity timeout).after as).find? id = some f) (hs : f.signal = some t) :
    (create capacity timeout).Ended as f.key id t := by
  induction as using List.reverseRecOn generalizing f with
  | nil => cases hf
  | append_singleton as a ih =>
    rw [after_snoc] at hf
    have hl := enrolled_run (R := R) capacity timeout as
    cases flown_step hl.solo hf with
    | begun _ _ _ _ => cases hs
    | kept hg => exact (ih hg hs).append _
    | accepted hg _ _ _ => exact (ih hg hs).append _
    | expired hg _ _ => exact (ih hg hs).append _
    | told hg _ hc hid =>
      have hends := ends_of_told hl hg hc hid
      rw [← Option.some.inj hs]
      exact ⟨as,a,[],rfl,hends⟩

/-- A submission that returns a transaction is that of a mutation whose record was ended as confirmed. -/
theorem ended_of_result (capacity timeout : Nat) {as : List (Action R)}
    (h : .ok (.confirmed key t) ∈ results id ((create capacity timeout).effects as)) :
    (create capacity timeout).Ended as key id t := by
  obtain ⟨u,a,v,rfl,hx⟩ := mem_results_effects h
  rcases ends_of_result (enrolled_run capacity timeout u) hx with hends | ⟨f,hf,rfl,hs⟩
  · exact ⟨u,a,v,rfl,hends⟩
  · exact (ended_of_signal capacity timeout hf hs).append _

/-! ### What a confirmation rests on -/

/-- No change that carries a mutation's own transaction is shown for its key before the mutation is
staged. -/
def OwnTransactions (d : Desk R) (as : List (Action R)) : Prop :=
  ∀ key id t, d.Accepted as key id t → ∀ u cs v, as = u ++ .remote cs::v → Carries cs key t →
    ∃ m, (id,m) ∈ d.roster u

/-- While a mutation was pending, the server's word on it came: a change that carries its transaction; or,
after the answer, an image that shows what it does; or the row that its own submission asked for. -/
inductive Grounds (d : Desk R) (as : List (Action R)) (key : String) (id : Nat) (m : Mutation R)
    (t : Txid) : Prop
  | change {u v : List (Action R)} {cs : List (RemoteChange R)} : as = u ++ .remote cs::v →
      (d.after u).reconciler.progress? key id ≠ none → Carries cs key t → Grounds d as key id m t
  | image {u v : List (Action R)} {rows : List R} {resync : Bool} : as = u ++ .snapshot rows resync::v →
      (d.after u).reconciler.progress? key id ≠ none → d.Accepted u key id t →
      m.isReflectedBy ((imageOf rows).find? key) = true → Grounds d as key id m t
  | row {u v : List (Action R)} {f : Flight R} {server : Option R} : as = u ++ .read id (.ok server)::v →
      (d.after u).reconciler.progress? key id ≠ none → (d.after u).find? id = some f →
      f.phase = .reading t → m.isReflectedBy server = true → Grounds d as key id m t

private theorem carries_of_recordings {as : List (Action R)} (h : (key,t) ∈ d.recordings as) :
    ∃ u cs v, as = u ++ .remote cs::v ∧ Carries cs key t := by
  induction as generalizing d with
  | nil => cases h
  | cons a as ih =>
    have hsplit : d.recordings (a::as) = d.recordings [a] ++ (d.step a).recordings as :=
      recordings_append d [a] as
    rw [hsplit] at h
    rcases List.mem_append.mp h with h | h
    · cases a with
      | remote cs =>
        rw [recordings,recordings,List.append_nil] at h
        exact ⟨[],cs,as,rfl,Ledger.carries_of_recordings h⟩
      | stage fresh m | discard i | submit i | abort i | reply i answer | expire i | read i answer
      | advance ms | snapshot rows resync | seed rows | close => cases h
    · obtain ⟨u,cs,v,rfl,hcs⟩ := ih h
      exact ⟨a::u,cs,v,rfl,hcs⟩

private theorem carries_of_observed (capacity timeout : Nat) {as : List (Action R)}
    (h : ((create capacity timeout).after as).reconciler.ledger.observed.contains key t = true) :
    ∃ u cs v, as = u ++ .remote cs::v ∧ Carries cs key t := by
  rw [observed_after] at h
  rcases ObservedTxids.mem_note (e := (key,t)) (ObservedTxids.contains_iff.mp h) with hmem | hmem
  · cases hmem
  · exact carries_of_recordings hmem

private theorem grounds_of_ended (capacity timeout : Nat) {as : List (Action R)} {m : Mutation R}
    (hown : (create capacity timeout).OwnTransactions as)
    (hm : (id,m) ∈ (create capacity timeout).roster as) (h : (create capacity timeout).Ended as key id t) :
    (create capacity timeout).Grounds as key id m t := by
  obtain ⟨u,a,v,rfl,hends⟩ := h
  have hl := enrolled_run (R := R) capacity timeout u
  obtain ⟨p,hp,hid⟩ := hends.record
  have hpending : ((create capacity timeout).after u).reconciler.progress? key id ≠ none :=
    Reconciler.progress?_ne_none hp hid
  have hmutation : ∀ n, (id,n) ∈ (create capacity timeout).roster u → n = m := by
    intro n hn
    refine (enrolled_run capacity timeout (u ++ a::v)).unique ?_ hm
    rw [roster_append]
    exact List.mem_append_left _ hn
  have hrecord := hl.mem_of_record hp
  rw [hid] at hrecord
  obtain ⟨hmem,hkey⟩ := hrecord
  have hpm := hmutation _ hmem
  cases hends with
  | overtaken hf hphase hk _ _ hseen =>
    -- The change was remembered, and it had come after the mutation was staged.
    obtain ⟨x,cs,y,rfl,hcs⟩ := carries_of_observed capacity timeout hseen
    have haccepted : (create capacity timeout).Accepted ((x ++ .remote cs::y) ++ .reply id (.ok t)::v) key
        id t := by
      rw [← hk]
      exact ⟨_,_,v,_,rfl,hf,hphase,rfl,rfl⟩
    obtain ⟨n,hn⟩ := hown key id t haccepted x cs (y ++ .reply id (.ok t)::v) (by simp) hcs
    have hnm : n = m := by
      apply hmutation
      rw [roster_append]
      exact List.mem_append_left _ hn
    have hkey' : n.key = key := by rw [hnm,← hpm,hkey]
    have hearly := pending_of_prefix capacity timeout (e := (id,n)) (hkey'.symm ▸ hpending)
      (List.prefix_append x _) hn
    exact .change (u := x) (v := y ++ .reply id (.ok t)::v) (by simp) (hkey' ▸ hearly) hcs
  | shown _ _ _ hcs => exact .change rfl hpending hcs
  | imaged hq hqid hprogress hreflected =>
    obtain rfl := Option.some.inj (hp.symm.trans hq)
    have haccepted := (answered_run capacity timeout u).records key p t hp hprogress
    rw [hid] at haccepted
    exact .image rfl hpending haccepted (hpm ▸ hreflected)
  | found hf hphase _ _ _ _ hreflected =>
    rw [hmutation _ (hl.flying id _ hf).1] at hreflected
    exact .row rfl hpending hf hphase hreflected

/-- If the server gives every mutation a transaction of its own, then whoever is told that a mutation was
confirmed is told the transaction that the server named for it, and the server's word on it came while it
was pending. -/
theorem confirmed_on_grounds (capacity timeout : Nat) {as : List (Action R)}
    (hown : (create capacity timeout).OwnTransactions as)
    (h : .ok (.confirmed key t) ∈ results id ((create capacity timeout).effects as)) :
    ∃ m, (id,m) ∈ (create capacity timeout).roster as ∧ m.key = key ∧
      (create capacity timeout).Accepted as key id t ∧
      (create capacity timeout).Grounds as key id m t := by
  have hended := ended_of_result capacity timeout h
  have hdeparted := hended
  obtain ⟨u,a,v,rfl,hends⟩ := hdeparted
  obtain ⟨p,hp,hid⟩ := hends.record
  obtain ⟨hmem,hkey⟩ := (enrolled_run capacity timeout u).mem_of_record hp
  rw [hid] at hmem
  have hm : (id,p.mutation) ∈ (create capacity timeout).roster (u ++ a::v) := by
    rw [roster_append]
    exact List.mem_append_left _ hmem
  have haccepted := (accepted_of_ends capacity timeout hends).append v
  rw [List.append_assoc] at haccepted
  exact ⟨p.mutation,hm,hkey,haccepted,grounds_of_ended capacity timeout hown hm hended⟩

/-- A feature is changed twice. An image shows the first change; the transaction of the second one comes
before the server's answer. -/
def changedTwice : List (Action Entity) := [
  .remote [⟨"E1",some (.inState "E1" .ready),[]⟩],
  .stage "" (Entity.setStatus "E1" .validated),
  .submit 1,
  .reply 1 (.ok ⟨41⟩),
  .snapshot [.inState "E1" .validated] true,
  .stage "" (Entity.setStatus "E1" .markedBad),
  .submit 2,
  .remote [⟨"E1",some (.inState "E1" .markedBad),[⟨42⟩]⟩],
  .reply 2 (.ok ⟨42⟩)]

private theorem ownTransactions_changedTwice : (create 8 30000).OwnTransactions changedTwice := by
  rintro key id t ⟨_,x,y,f,hsplit,_⟩ u cs v h ⟨c,hc,_,ht⟩
  have hreply : (.reply id (.ok t) : Action Entity) ∈ changedTwice := by
    rw [hsplit]
    simp
  have hid : (id = 1 ∧ t = ⟨41⟩) ∨ (id = 2 ∧ t = ⟨42⟩) := by simpa [changedTwice] using hreply
  have hbatch : cs = [⟨"E1",some (.inState "E1" .ready),[]⟩] ∨ (u = changedTwice.take 7 ∧
      cs = [⟨"E1",some (.inState "E1" .markedBad),[⟨42⟩]⟩]) := by
    simp [changedTwice,List.cons_eq_append_iff] at h
    exact h.imp (fun h => h.2.1) fun h => ⟨h.1,h.2.1⟩
  rcases hbatch with rfl | ⟨rfl,rfl⟩
  · rw [List.mem_singleton.mp hc] at ht
    cases ht
  · rw [List.mem_singleton.mp hc] at ht
    rcases hid with ⟨_,rfl⟩ | ⟨rfl,_⟩
    · simp at ht
    · exact ⟨Entity.setStatus "E1" .markedBad,by decide +kernel⟩

theorem confirmed_on_grounds_changedTwice : (create 8 30000).OwnTransactions changedTwice ∧
    results 2 ((create 8 30000).effects changedTwice) = [.ok (.confirmed "E1" ⟨42⟩)] ∧
    ∃ m, (2,m) ∈ (create 8 30000).roster changedTwice ∧ m.key = "E1" ∧
      (create 8 30000).Accepted changedTwice "E1" 2 ⟨42⟩ ∧
      (create 8 30000).Grounds changedTwice "E1" 2 m ⟨42⟩ := by
  have hresults : results 2 ((create 8 30000).effects changedTwice) = [.ok (.confirmed "E1" ⟨42⟩)] := by
    decide +kernel
  refine ⟨ownTransactions_changedTwice,hresults,confirmed_on_grounds 8 30000 ownTransactions_changedTwice ?_⟩
  rw [hresults]
  exact List.mem_singleton_self _

end Desk
end FieldReplica
