import FieldReplica.Proofs.Requests

/-!
# How a mutation ceases to be pending

The record of a mutation goes in one of a few ways, and each of them says what became of the mutation: it
is confirmed, taken back, or cancelled before it was submitted.
-/
namespace FieldReplica

variable {R : Type} [Row R]

/-- What becomes of a mutation. -/
inductive Departure where
  | confirmed (t : Txid)
  | rolledBack (e : MutationError)
  | cancelled

omit [Row R] in
/-- What is reported of it. -/
def Departure.verdicts (key : String) : Departure → List (Event R)
  | .confirmed t => [.confirmed key t]
  | .rolledBack e => [.rolledBack key e.message]
  | .cancelled => []

namespace Ledger

/-- A full image that shows the outcome of a mutation confirms it once. -/
theorem filter_reflectedBy {l : Ledger R} {image : Table String R} {key : String} {p : Pending R}
    {t : Txid} (hp : l.pending.find? key = some p) (ht : p.reflected? (image.find? key) = some t) :
    (l.reflectedBy image).filter (·.key = key) = [⟨p.id,key,t⟩] := by
  have hmem : ⟨p.id,key,t⟩ ∈ (l.reflectedBy image).filter (·.key = key) :=
    List.mem_filter.mpr ⟨mem_reflectedBy.mpr ⟨p,hp,rfl,ht⟩,decide_eq_true rfl⟩
  have hkeys : ∀ c ∈ (l.reflectedBy image).filter (·.key = key), c.key = key := fun c hc =>
    of_decide_eq_true (List.mem_filter.mp hc).2
  have hsorted := (ascending_reflectedBy l image).filter (p := fun c : Confirmation => decide (c.key = key))
  cases hl : (l.reflectedBy image).filter (·.key = key) with
  | nil =>
    rw [hl] at hmem
    cases hmem
  | cons c cs =>
    cases cs with
    | nil =>
      rw [hl] at hmem
      rw [List.mem_singleton.mp hmem]
    | cons c' cs =>
      rw [hl] at hkeys hsorted
      have hlt : compare c.key c'.key = .lt := by simpa using (List.pairwise_cons.mp hsorted).1 c' (by simp)
      rw [hkeys c (by simp),hkeys c' (by simp)] at hlt
      simp at hlt

end Ledger

namespace Desk

variable {d : Desk R} {id : Nat} {key : String} {t : Txid}

/-- The ways in which an action ends the record of a mutation. -/
inductive Ends (d : Desk R) (key : String) (id : Nat) : Action R → Departure → Prop
  | withdrawn {fresh : String} {m : Mutation R} {d' : Desk R} {p : Pending R} :
      d.stage fresh m = .ok (d',.cancelled key) → d.record? key = some p → p.id = id →
      Ends d key id (.stage fresh m) .cancelled
  | refused {f : Flight R} {p : Pending R} {e : AdapterError} : d.find? id = some f → f.phase = .reply →
      f.key = key → d.record? key = some p → p.id = id →
      Ends d key id (.reply id (.error e)) (.rolledBack (.ofAdapter e))
  | overtaken {f : Flight R} {p : Pending R} {t : Txid} : d.find? id = some f → f.phase = .reply →
      f.key = key → d.record? key = some p → p.id = id →
      d.reconciler.ledger.observed.contains key t = true →
      Ends d key id (.reply id (.ok t)) (.confirmed t)
  | shown {cs : List (RemoteChange R)} {p : Pending R} {t : Txid} : d.record? key = some p → p.id = id →
      p.progress = .awaiting t → Carries cs key t → Ends d key id (.remote cs) (.confirmed t)
  | imaged {rows : List R} {resync : Bool} {p : Pending R} {t : Txid} : d.record? key = some p →
      p.id = id → p.progress = .awaiting t → p.mutation.isReflectedBy ((imageOf rows).find? key) = true →
      Ends d key id (.snapshot rows resync) (.confirmed t)
  | found {f : Flight R} {p : Pending R} {t : Txid} {server : Option R} : d.find? id = some f →
      f.phase = .reading t → f.signal = none → f.key = key → d.record? key = some p → p.id = id →
      f.mutation.isReflectedBy server = true → Ends d key id (.read id (.ok server)) (.confirmed t)
  | lost {f : Flight R} {p : Pending R} {t : Txid} {answer : Except AdapterError (Option R)} :
      d.find? id = some f → f.phase = .reading t → f.signal = none → f.key = key →
      d.record? key = some p → p.id = id →
      (∀ server, answer = .ok server → f.mutation.isReflectedBy server = false) →
      Ends d key id (.read id answer) (.rolledBack (.lost key t))

theorem Ends.record {a : Action R} {w : Departure} (h : d.Ends key id a w) :
    ∃ p, d.record? key = some p ∧ p.id = id := by
  cases h with
  | withdrawn _ hp hid | refused _ _ _ hp hid | overtaken _ _ _ hp hid _ | shown hp hid _ _
  | imaged hp hid _ _ | found _ _ _ _ hp hid _ | lost _ _ _ _ hp hid _ => exact ⟨_,hp,hid⟩

/-! ### What is left -/

private theorem ruled_of_retire {a : Action R} {v : Option R} {e : Event R} (he : e.isVerdict key = true)
    (hr : (d.step a).reconciler = (d.reconciler.retire key v).notify e) :
    (d.step a).record? key = none ∧ d.ruling a key = [e] := by
  constructor
  · rw [record?,hr]
    exact Table.find?_erase_self d.reconciler.ledger.pending key
  · apply ruling_eq
    rw [hr,Reconciler.verdicts_notify,Reconciler.verdicts_retire]
    simp [he]

private theorem reconciler_refused {f : Flight R} (hf : d.find? id = some f) (hphase : f.phase = .reply)
    (e : AdapterError) :
    (d.step (.reply id (.error e))).reconciler = d.reconciler.rollBack f.key id (.ofAdapter e) ∧
      results id (d.act (.reply id (.error e))).2 = [.error (.ofAdapter e)] := by
  obtain ⟨i,k,m,phase,signal⟩ := f
  obtain rfl : phase = _ := hphase
  have hact : d.act (.reply id (.error e)) = ({ d with
      reconciler := d.reconciler.rollBack k id (.ofAdapter e) } : Desk R).resolve id
        (.error (.ofAdapter e)) := by
    simp only [act,reply,hf]
  rw [step,hact]
  exact ⟨rfl,by rw [resolve,results_resolved,if_pos rfl]⟩

private theorem reconciler_settled {f : Flight R} (hf : d.find? id = some f) (hphase : f.phase = .reading t)
    (hsignal : f.signal = none) (answer : Except AdapterError (Option R)) :
    (d.step (.read id answer)).reconciler = (d.reconciler.settle f.key id t f.mutation answer).1 ∧
      results id (d.act (.read id answer)).2 = [(d.reconciler.settle f.key id t f.mutation answer).2] := by
  obtain ⟨i,k,m,phase,signal⟩ := f
  obtain rfl : phase = _ := hphase
  obtain rfl : signal = _ := hsignal
  have hact : d.act (.read id answer) = ({ d with
      reconciler := (d.reconciler.settle k id t m answer).1 } : Desk R).resolve id
        (d.reconciler.settle k id t m answer).2 := by
    simp only [act,read,hf]
  rw [step,hact]
  exact ⟨rfl,by rw [resolve,results_resolved,if_pos rfl]⟩

/-- The record goes, and the word on the mutation is the only one on its key. -/
theorem ruling_of_ends {a : Action R} {w : Departure} (h : d.Ends key id a w) :
    (d.step a).record? key = none ∧ d.ruling a key = w.verdicts key := by
  cases h with
  | withdrawn hs hp hid =>
    obtain ⟨r,hr,rfl⟩ := stage_eq_ok hs
    obtain ⟨_,⟨q,_,_,hkey,rfl⟩ | ⟨_,_,_,hx,_⟩⟩ := Reconciler.stage_eq_ok rfl hr
    · cases hkey
      constructor
      · simp only [record?,step,act,hs]
        exact Table.find?_erase_self _ _
      · apply ruling_eq
        simp only [step,act,hs,Departure.verdicts,List.append_nil]
        exact Reconciler.verdicts_retire _ _ _ _
    · cases hx
  | @refused f p e hf hphase hk hp hid =>
    subst hk
    refine ruled_of_retire (v := p.base) (by simp [Event.isVerdict]) ?_
    rw [(reconciler_refused hf hphase e).1]
    exact Reconciler.rollBack_of_some (Reconciler.find?_eq_some.mpr ⟨hp,hid⟩) _
  | @overtaken f p t hf hphase hk hp hid hseen =>
    obtain ⟨i,k,m,phase,signal⟩ := f
    obtain rfl : phase = _ := hphase
    obtain rfl : k = key := hk
    refine ruled_of_retire (v := p.base) (by simp [Event.isVerdict]) ?_
    have hawait := Reconciler.awaitTxid_of_some (Reconciler.find?_eq_some.mpr ⟨hp,hid⟩) t
    rw [if_pos hseen] at hawait
    simp only [step,act,reply,hf,hawait]
    rfl
  | @shown cs p t hp hid hprogress hcs =>
    obtain ⟨hn,hconf⟩ := Ledger.receiveAll_of_awaited hp hprogress hcs
    constructor
    · exact (congrArg (·.ledger.pending.find? key) (reconciler_remote d cs)).trans hn
    · apply ruling_eq
      refine (congrArg (·.verdicts key) (reconciler_remote d cs)).trans ?_
      rw [Reconciler.verdicts_applyRemote,hconf]
      rfl
  | @imaged rows resync p t hp hid hprogress hreflected =>
    have ht := Pending.reflected?_eq_some.mpr ⟨hprogress,hreflected⟩
    have hr := reconciler_snapshot d rows resync
    have hfind : d.reconciler.ledger.pending.find? key = some p := hp
    constructor
    · refine (congrArg (·.ledger.pending.find? key) hr).trans ?_
      rw [Reconciler.ledger_applySnapshot,Ledger.find?_rebase,hfind,Option.bind_some,Pending.afterImage,ht]
      rfl
    · apply ruling_eq
      refine (congrArg (·.verdicts key) hr).trans ?_
      rw [Reconciler.verdicts_applySnapshot,Ledger.filter_reflectedBy hp ht]
      rfl
  | @found f p t server hf hphase hsignal hk hp hid hreflected =>
    subst hk
    refine ruled_of_retire (v := server) (by simp [Event.isVerdict]) ?_
    rw [(reconciler_settled hf hphase hsignal _).1,
      Reconciler.settle_of_some (Reconciler.find?_eq_some.mpr ⟨hp,hid⟩)]
    simp only [Reconciler.settledValue,Reconciler.verdict,hreflected,if_true,Reconciler.Verdict.event]
  | @lost f p t answer hf hphase hsignal hk hp hid hother =>
    subst hk
    refine ruled_of_retire (v := Reconciler.settledValue p answer) (by simp [Event.isVerdict]) ?_
    rw [(reconciler_settled hf hphase hsignal _).1,
      Reconciler.settle_of_some (Reconciler.find?_eq_some.mpr ⟨hp,hid⟩)]
    cases answer with
    | error e => rfl
    | ok server =>
      simp only [Reconciler.verdict,hother server rfl,Bool.false_eq_true,if_false,
        Reconciler.Verdict.event]

/-! ### There is no other way -/

omit [Row R] in
/-- The submission of a mutation that is pending is for the key of its record. -/
theorem Coherent.key_of_flight (hd : d.Coherent id) {f : Flight R} (hf : d.find? id = some f) {g : Progress}
    (hg : d.reconciler.progress? key id = some g) : f.key = key := by
  rw [(hd.flying f hf).2] at hg
  split at hg
  · next hk => exact hk.symm
  · cases hg

/-- The word of the stream on a mutation ends its record. -/
theorem ends_of_word {a : Action R} {c : Confirmation} (hc : c ∈ d.words a) :
    d.Ends c.key c.id a (.confirmed c.txid) := by
  cases a with
  | remote cs =>
    have hmem : c ∈ (d.reconciler.ledger.receiveAll cs).confirmed.filter (·.key = c.key) :=
      List.mem_filter.mpr ⟨hc,decide_eq_true rfl⟩
    cases hp : d.record? c.key with
    | none =>
      rw [(Ledger.receiveAll_of_absent hp cs).2] at hmem
      cases hmem
    | some p =>
      rcases Ledger.receiveAll_of_present hp cs with ⟨t,ht,hcs,_,hconf⟩ | ⟨_,_,hconf⟩
      · rw [hconf] at hmem
        have heq := List.mem_singleton.mp hmem
        have hid : p.id = c.id := (congrArg Confirmation.id heq).symm
        have htxid : t = c.txid := (congrArg Confirmation.txid heq).symm
        subst htxid
        exact .shown hp hid ht hcs
      · rw [hconf] at hmem
        cases hmem
  | snapshot rows resync =>
    have hmem : c ∈ d.reconciler.ledger.reflectedBy (imageOf rows) := hc
    obtain ⟨p,hp,hid,ht⟩ := Ledger.mem_reflectedBy.mp hmem
    obtain ⟨hprogress,hreflected⟩ := Pending.reflected?_eq_some.mp ht
    exact .imaged hp hid hprogress hreflected
  | stage fresh m | discard i | submit i | abort i | reply i answer | expire i | read i answer | advance ms
  | seed rows | close => cases hc

private theorem ends_of_reply (hd : d.Coherent id) {answer : Except AdapterError Txid}
    (hp : d.reconciler.progress? key id ≠ none)
    (hn : (d.step (.reply id answer)).reconciler.progress? key id = none) :
    ∃ w, d.Ends key id (.reply id answer) w := by
  have hidle : (d.step (.reply id answer)).reconciler = d.reconciler → False := fun h => hp (h ▸ hn)
  obtain ⟨g,hg⟩ := Option.ne_none_iff_exists'.mp hp
  obtain ⟨p,hfind,hid,_⟩ := Reconciler.progress?_eq_some.mp hg
  cases hf : d.find? id with
  | none => exact (hidle (by simp only [step,act,reply,hf])).elim
  | some f =>
    have hk := hd.key_of_flight hf hg
    cases hphase : f.phase with
    | confirmation t deadline | reading t =>
      refine (hidle ?_).elim
      obtain ⟨i,k,m,phase,signal⟩ := f
      obtain rfl : phase = _ := hphase
      simp only [step,act,reply,hf]
    | reply =>
      cases answer with
      | error e => exact ⟨_,.refused hf hphase hk hfind hid⟩
      | ok t =>
        cases hseen : d.reconciler.ledger.observed.contains key t with
        | true => exact ⟨_,.overtaken hf hphase hk hfind hid hseen⟩
        | false =>
          -- The answer leaves the mutation waiting, with its record.
          obtain ⟨f',hf',hk',he,_⟩ := waiting_of_reply hd hf hphase (hk.symm ▸ hseen)
          have hd' := (coherent_step hd (reply_undisturbing id id (.ok t)).1).1
          rw [(hd'.flying f' hf').2,if_pos (hk.symm.trans hk'.symm),he] at hn
          cases hn

private theorem ends_of_read (hd : d.Coherent id) {answer : Except AdapterError (Option R)}
    (hp : d.reconciler.progress? key id ≠ none)
    (hn : (d.step (.read id answer)).reconciler.progress? key id = none) :
    ∃ w, d.Ends key id (.read id answer) w := by
  obtain ⟨g,hg⟩ := Option.ne_none_iff_exists'.mp hp
  obtain ⟨p,hfind,hid,_⟩ := Reconciler.progress?_eq_some.mp hg
  rcases reconciler_read d id answer with hr | ⟨f,t,hf,hphase,hsignal,_⟩
  · have hsame : (d.step (.read id answer)).reconciler = d.reconciler := hr
    exact absurd (hsame ▸ hn) hp
  · have hk := hd.key_of_flight hf hg
    cases answer with
    | error e => exact ⟨_,.lost hf hphase hsignal hk hfind hid nofun⟩
    | ok server =>
      cases hreflected : f.mutation.isReflectedBy server with
      | true => exact ⟨_,.found hf hphase hsignal hk hfind hid hreflected⟩
      | false =>
        refine ⟨_,.lost hf hphase hsignal hk hfind hid ?_⟩
        intro s hs
        rw [← Except.ok.inj hs]
        exact hreflected

private theorem ends_of_stage {fresh : String} {m : Mutation R} (hp : d.reconciler.progress? key id ≠ none)
    (hn : (d.step (.stage fresh m)).reconciler.progress? key id = none) :
    ∃ w, d.Ends key id (.stage fresh m) w := by
  obtain ⟨g,hg⟩ := Option.ne_none_iff_exists'.mp hp
  obtain ⟨p,hfind,hid,_⟩ := Reconciler.progress?_eq_some.mp hg
  have hkeeps : (d.step (.stage fresh m)).record? key = some p → False := by
    intro h
    rw [Reconciler.progress?_of_some h,if_pos hid] at hn
    cases hn
  rcases stage_cases d fresh m rfl with ⟨h,_⟩ | ⟨q,_,_,hstage,_,h⟩ | ⟨w,hfree,_,_,h⟩
  · exact (hkeeps (by rw [h]; exact hfind)).elim
  · by_cases hk : key = (Reconciler.withKey fresh m).key
    · subst hk
      exact ⟨_,.withdrawn hstage hfind hid⟩
    · refine (hkeeps ?_).elim
      rw [h]
      exact (Table.find?_erase_ne _ hk).trans hfind
  · have hk : key ≠ (Reconciler.withKey fresh m).key := by
      rintro rfl
      cases hfree.symm.trans hfind
    refine (hkeeps ?_).elim
    rw [h]
    exact (Table.find?_insert_ne _ _ hk).trans hfind

/-- The stream ends the records of the mutations that it names, and no others. -/
theorem ends_of_heard {a : Action R} (hr : Reconciler.Heard (d.words a) d.reconciler (d.step a).reconciler)
    (hp : d.reconciler.progress? key id ≠ none) (hn : (d.step a).reconciler.progress? key id = none) :
    ∃ w, d.Ends key id a w := by
  by_cases hc : ∃ c ∈ d.words a, c.key = key ∧ c.id = id
  · obtain ⟨c,hc,rfl,rfl⟩ := hc
    exact ⟨_,ends_of_word hc⟩
  · rw [hr.stays key id fun c hcs hk hid => hc ⟨c,hcs,hk,hid⟩] at hn
    exact absurd hn hp

/-- While the reconciler is open, a record that goes has gone in one of these ways. -/
theorem ends_of_gone (hd : d.Coherent id) {a : Action R} (ha : a ≠ .close)
    (hp : d.reconciler.progress? key id ≠ none) (hn : (d.step a).reconciler.progress? key id = none) :
    ∃ w, d.Ends key id a w := by
  have hother : ∀ i, a.subject? = some i → id ≠ i → ∃ w, d.Ends key id a w := by
    intro i hi hne
    rw [(hides_step hi hne).1.record] at hn
    exact absurd hn hp
  cases a with
  | stage fresh m => exact ends_of_stage hp hn
  | discard i | abort i | advance ms | seed rows => exact absurd hn hp
  | submit i =>
    refine absurd hn ?_
    obtain ⟨g,hg⟩ := Option.ne_none_iff_exists'.mp hp
    obtain ⟨p,hfind,hid,_⟩ := Reconciler.progress?_eq_some.mp hg
    rcases reconciler_submit d i with hr | ⟨s,m,hr⟩
    · have hsame : (d.step (.submit i)).reconciler = d.reconciler := hr
      rw [hsame]
      exact hp
    · rcases Reconciler.beginSubmit_eq_ok hr with ⟨q,hq,_,_,hr⟩ | ⟨_,_,_,hr⟩
      · have hput : (d.step (.submit i)).reconciler = _ := hr
        rw [hput]
        by_cases hqid : q.id = id
        · rw [← hqid,progress?_put .submitted hq]
          split
          · exact nofun
          · rw [hqid]
            exact hp
        · have hspares := Reconciler.spares_put (q := { q with progress := .submitted }) hq rfl
          rw [hspares.others key id (Ne.symm hqid)]
          exact hp
      · have hsame : (d.step (.submit i)).reconciler = d.reconciler := hr
        rw [hsame]
        exact hp
  | reply i answer =>
    by_cases hid : id = i
    · subst hid
      exact ends_of_reply hd hp hn
    · exact hother i rfl hid
  | expire i =>
    have hsame : (d.step (.expire i)).reconciler = d.reconciler := reconciler_expire d i
    rw [hsame] at hn
    exact absurd hn hp
  | read i answer =>
    by_cases hid : id = i
    · subst hid
      exact ends_of_read hd hp hn
    · exact hother i rfl hid
  | remote cs =>
    refine ends_of_heard ?_ hp hn
    exact (reconciler_remote d cs).symm ▸ Reconciler.heard_applyRemote d.reconciler cs
  | snapshot rows resync =>
    refine ends_of_heard ?_ hp hn
    exact (reconciler_snapshot d rows resync).symm ▸ Reconciler.heard_applySnapshot d.reconciler rows resync
  | close => exact absurd rfl ha

/-! ### What the submission returns -/

omit [Row R] in
private theorem expects_of_awaiting (hd : d.Coherent id) {f : Flight R} (hf : d.find? id = some f) {p : Pending R}
    (hp : d.record? key = some p) (hid : p.id = id) (hprogress : p.progress = .awaiting t) :
    f.key = key ∧ f.expects = some (.awaiting t) := by
  have hpending : d.reconciler.progress? key id = some (.awaiting t) := by
    rw [Reconciler.progress?_of_some hp,if_pos hid,hprogress]
  obtain rfl := hd.key_of_flight hf hpending
  rw [(hd.flying f hf).2,if_pos rfl] at hpending
  exact ⟨rfl,hpending⟩

/-- The submission of a mutation that is confirmed hears of it. -/
theorem confirming_of_ends (hd : d.Coherent id) {a : Action R} (h : d.Ends key id a (.confirmed t))
    (hf : d.find? id ≠ none) : d.Confirming a key id t := by
  obtain ⟨f,hf⟩ := Option.ne_none_iff_exists'.mp hf
  have hends := h
  cases h with
  | overtaken hf hphase hk hp hid hseen =>
    subst hk
    exact reply_confirming hd hf hphase hseen
  | shown hp hid hprogress hcs =>
    obtain ⟨rfl,he⟩ := expects_of_awaiting hd hf hp hid hprogress
    exact batch_confirming hd hf he hcs
  | @imaged rows resync p t hp hid hprogress hreflected =>
    obtain ⟨rfl,he⟩ := expects_of_awaiting hd hf hp hid hprogress
    have hword : ⟨id,f.key,t⟩ ∈ d.words (.snapshot rows resync) := by
      refine Ledger.mem_reflectedBy.mpr ⟨p,hp,hid,?_⟩
      exact Pending.reflected?_eq_some.mpr ⟨hprogress,hreflected⟩
    have hresult := waiting_wake_of_mem hd hf he
      (Reconciler.heard_applySnapshot d.reconciler rows resync) ⟨_,hword,rfl⟩
    obtain ⟨hgone,hruled⟩ := ruling_of_ends hends
    refine ⟨Option.ne_none_iff_exists'.mpr ⟨f,hf⟩,Reconciler.progress?_ne_none hp hid,hgone,hruled,?_,
      fun hprompt => ?_⟩
    · refine reached_singleton hd (by simp) ?_
      exact hresult.imp And.left fun h => ⟨h.1,h.2.1⟩
    · rcases hresult with ⟨hresult,_⟩ | ⟨_,_,hreading⟩
      · exact hresult
      · cases hreading.symm.trans (hprompt f hf)
  | @found f p t server hf hphase hsignal hk hp hid hreflected =>
    subst hk
    obtain ⟨hgone,hruled⟩ := ruling_of_ends hends
    have hresult : results id (d.act (.read id (.ok server))).2 = [.ok (.confirmed f.key t)] := by
      rw [(reconciler_settled hf hphase hsignal _).2,
        Reconciler.settle_of_some (Reconciler.find?_eq_some.mpr ⟨hp,hid⟩)]
      simp only [Reconciler.verdict,hreflected,if_true]
    refine ⟨Option.ne_none_iff_exists'.mpr ⟨f,hf⟩,Reconciler.progress?_ne_none hp hid,hgone,hruled,?_,
      fun _ => hresult⟩
    exact reached_singleton hd (by simp) (.inl hresult)

/-- The submission of a mutation that is taken back is under way, and returns the error. -/
theorem result_of_rolledBack {a : Action R} {e : MutationError} (h : d.Ends key id a (.rolledBack e)) :
    d.find? id ≠ none ∧ results id (d.act a).2 = [.error e] := by
  cases h with
  | @refused f p e hf hphase hk hp hid =>
    exact ⟨Option.ne_none_iff_exists'.mpr ⟨f,hf⟩,(reconciler_refused hf hphase e).2⟩
  | @lost f p t answer hf hphase hsignal hk hp hid hother =>
    refine ⟨Option.ne_none_iff_exists'.mpr ⟨f,hf⟩,?_⟩
    subst hk
    rw [(reconciler_settled hf hphase hsignal _).2,
      Reconciler.settle_of_some (Reconciler.find?_eq_some.mpr ⟨hp,hid⟩)]
    cases answer with
    | error e => rfl
    | ok server => simp only [Reconciler.verdict,hother server rfl,Bool.false_eq_true,if_false]

/-- Whoever submits a mutation that has no record any more, while the reconciler is open, is told that it
was cancelled. -/
theorem result_of_submit_gone (hopen : d.reconciler.closed = false)
    (h : ∀ k, d.reconciler.progress? k id = none) (hheld : ∃ s ∈ d.handles, s.id = id)
    (hkey : ∀ s ∈ d.handles, s.id = id → s.key = key) :
    results id (d.act (.submit id)).2 = [.ok (.cancelled key)] := by
  rw [act,submit]
  split
  · next hnone =>
    obtain ⟨s,hs,hid⟩ := hheld
    exact absurd (decide_eq_true hid) (List.find?_eq_none.mp hnone s hs)
  · next s hs =>
    have hid : s.id = id := by simpa using List.find?_some hs
    have hgone : d.reconciler.find? s.key s.id = none := by
      rw [hid]
      exact Option.map_eq_none_iff.mp (h s.key)
    have hbegin : (d.discard id).reconciler.beginSubmit s = .ok (d.reconciler,.cancelled) := by
      rw [discard,Reconciler.beginSubmit,hgone,hopen]
      rfl
    simp only [hbegin]
    rw [results_resolved,if_pos rfl,hkey s (List.mem_of_find?_eq_some hs) hid]

/-- A mutation is confirmed as the transaction that the server named for it. -/
theorem accepted_of_ends (capacity timeout : Nat) {u : List (Action R)} {a : Action R} {t : Txid}
    (h : ((create capacity timeout).after u).Ends key id a (.confirmed t)) :
    (create capacity timeout).Accepted (u ++ [a]) key id t := by
  have hanswered := answered_run (R := R) capacity timeout u
  cases h with
  | overtaken hf hphase hk _ _ _ =>
    rw [← hk]
    exact ⟨_,acceptedAt_snoc u hf hphase⟩
  | shown hp hid hprogress _ | imaged hp hid hprogress _ =>
    rw [← hid]
    exact (hanswered.records key _ _ hp hprogress).append _
  | found hf hphase _ hk _ _ _ =>
    rw [← hk]
    exact (hanswered.reading id _ _ hf hphase).append _

/-! ### Silence -/

private theorem verdicts_of_handled (hn : d.record? key = none) {r : Reconciler R} (h : d.Handled id r) :
    r.verdicts key = d.reconciler.verdicts key := by
  cases h with
  | same => rfl
  | moved _ _ _ => rfl
  | @ruled k p e v hp _ he =>
    have hk : k ≠ key := by
      rintro rfl
      cases hn.symm.trans hp
    rw [Reconciler.verdicts_notify,Reconciler.verdicts_retire]
    simp [he,hk]

/-- There is no verdict on a key that has no record. -/
theorem ruling_of_none (h : d.record? key = none) (a : Action R) : d.ruling a key = [] := by
  have hsame : (d.step a).reconciler.verdicts key = d.reconciler.verdicts key → d.ruling a key = [] := by
    intro hs
    exact ruling_eq (hs.trans (List.append_nil _).symm)
  have hother : ∀ k p, d.record? k = some p → k ≠ key := by
    rintro k p hp rfl
    cases h.symm.trans hp
  have hsubject : ∀ i, a.subject? = some i → d.ruling a key = [] :=
    fun i hi => hsame (verdicts_of_handled h (handled_step hi))
  cases a with
  | stage fresh m =>
    apply hsame
    rcases stage_cases d fresh m rfl with ⟨hs,_⟩ | ⟨p,_,_,_,_,hs⟩ | ⟨w,_,_,_,hs⟩
    · rw [hs]
    · rw [hs]
      exact Reconciler.verdicts_retire _ _ _ _
    · rw [hs]
      exact Reconciler.verdicts_write _ _ _
  | advance ms | close => exact hsame rfl
  | discard i | abort i | submit i | reply i answer | expire i | read i answer => exact hsubject i rfl
  | seed rows => exact hsame (Reconciler.verdicts_write _ _ _)
  | remote cs =>
    apply hsame
    refine (congrArg (·.verdicts key) (reconciler_remote d cs)).trans ?_
    rw [Reconciler.verdicts_applyRemote,(Ledger.receiveAll_of_absent h cs).2]
    exact List.append_nil _
  | snapshot rows resync =>
    apply hsame
    refine (congrArg (·.verdicts key) (reconciler_snapshot d rows resync)).trans ?_
    have hnone : (d.reconciler.ledger.reflectedBy (imageOf rows)).filter (·.key = key) = [] := by
      rw [List.filter_eq_nil_iff]
      intro c hc hk
      obtain ⟨p,hp,_⟩ := Ledger.mem_reflectedBy.mp hc
      exact hother c.key p hp (of_decide_eq_true hk)
    rw [Reconciler.verdicts_applySnapshot,hnone]
    exact List.append_nil _

end Desk
end FieldReplica
