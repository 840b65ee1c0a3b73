import FieldReplica.Proofs.Image
import FieldReplica.Proofs.Reconciler
import FieldReplica.Proofs.Run

/-!
# Watching a table

One who listens, then takes down the rows, and then carries out on them every change that is heard has the rows
of the store. Changes from before the rows were taken down are heard after that and carried out on rows that are
newer. In the end this makes no difference: a key has the value that the last change gives it, or no change
speaks of it.
-/
namespace FieldReplica

variable {R : Type} [Row R]

/-! ### Events -/

/-- The table after what an event tells. -/
def Event.apply (rows : Table String R) : Event R → Table String R
  | .changed c =>
    match c.kind with
    | .added | .updated => rows.insert c.key c.row
    | .removed => rows.erase c.key
  | _ => rows

/-- The key whose value an event tells, with the value. -/
def Event.entry? : Event R → Option (String × Option R)
  | .changed c =>
    match c.kind with
    | .added | .updated => some (c.key,some c.row)
    | .removed => some (c.key,none)
  | _ => none

/-- The values that some events tell, in order. -/
def told (es : List (Event R)) : List (String × Option R) := es.filterMap Event.entry?

omit [Row R] in
private theorem told_append (es fs : List (Event R)) : told (es ++ fs) = told es ++ told fs := List.filterMap_append

omit [Row R] in
private theorem find?_event (rows : Table String R) (e : Event R) (key : String) :
    (e.apply rows).find? key = lastUnder key e.entry?.toList (rows.find? key) := by
  cases e with
  | changed c =>
    obtain ⟨k,kind,row⟩ := c
    cases kind with
    | added | updated =>
      rw [Event.apply,Table.find?_insert_of]
      simp only [Event.entry?,Option.toList_some,lastUnder_cons,lastUnder_nil,eq_comm]
    | removed =>
      rw [Event.apply,Table.find?_erase_of]
      simp only [Event.entry?,Option.toList_some,lastUnder_cons,lastUnder_nil,eq_comm]
  | _ => rfl

omit [Row R] in
theorem find?_events (rows : Table String R) (es : List (Event R)) (key : String) :
    (es.foldl Event.apply rows).find? key = lastUnder key (told es) (rows.find? key) := by
  induction es generalizing rows with
  | nil => rfl
  | cons e es ih =>
    have htold : told (e::es) = e.entry?.toList ++ told es := by
      rw [told,List.filterMap_cons]
      cases e.entry? <;> rfl
    rw [List.foldl_cons,ih,find?_event,htold,lastUnder_append]

/-! ### What the store reports -/

namespace Store

/-- One store comes after another, and has reported what makes the difference. -/
structure Reports (s t : Store R) (es : List (Event R)) : Prop where
  log : t.channel.log = s.channel.log ++ es
  rows : ∀ key, t.rows.find? key = lastUnder key (told es) (s.rows.find? key)
  filed : (∀ key, FiledUnder key (s.rows.find? key)) → ∀ key, FiledUnder key (t.rows.find? key)

variable {s t u : Store R} {es fs : List (Event R)}

theorem Reports.refl (s : Store R) : s.Reports s [] := ⟨(List.append_nil _).symm,fun _ => rfl,id⟩

theorem Reports.trans (h : s.Reports t es) (h' : t.Reports u fs) : s.Reports u (es ++ fs) where
  log := by rw [h'.log,h.log,List.append_assoc]
  rows := by
    intro key
    rw [h'.rows,h.rows,told_append,lastUnder_append]
  filed := fun hs => h'.filed (h.filed hs)

/-- A change tells what its write leaves; a write that changes nothing leaves what is there. -/
theorem find?_change (rows : Table String R) (w : Write R) (key : String) :
    lastUnder key (told ((w.change? rows).toList.map .changed)) (rows.find? key) =
      (w.apply rows).find? key := by
  rw [Write.find?_apply]
  cases w with
  | upsert row =>
    rw [Write.change?]
    cases hrow : rows.find? (Row.key row) with
    | none => rfl
    | some previous =>
      dsimp only
      split
      · next hsame =>
        subst hsame
        by_cases hk : Row.key previous = key
        · subst hk
          simp [Write.entry,told,hrow]
        · simp [Write.entry,told,hk]
      · rfl
  | delete k =>
    rw [Write.change?]
    cases hrow : rows.find? k with
    | none =>
      by_cases hk : k = key
      · subst hk
        simp [Write.entry,told,hrow]
      · simp [Write.entry,told,hk]
    | some previous => rfl

theorem find?_changes (rows : Table String R) (ws : List (Write R)) (key : String) :
    lastUnder key (told ((Write.changes rows ws).map .changed)) (rows.find? key) =
      (Write.applyAll rows ws).find? key := by
  induction ws generalizing rows with
  | nil => rfl
  | cons w ws ih =>
    rw [Write.changes,List.map_append,told_append,lastUnder_append,find?_change,ih]
    rfl

private theorem filed_apply {rows : Table String R} (h : ∀ key, FiledUnder key (rows.find? key)) (w : Write R)
    (key : String) : FiledUnder key ((w.apply rows).find? key) := by
  rw [Write.find?_apply]
  split
  · next hk =>
    cases w with
    | upsert row => exact filedUnder_some hk
    | delete k => exact filedUnder_none key
  · exact h key

theorem filed_applyAll {rows : Table String R} (h : ∀ key, FiledUnder key (rows.find? key))
    (ws : List (Write R)) (key : String) : FiledUnder key ((Write.applyAll rows ws).find? key) := by
  induction ws generalizing rows with
  | nil => exact h key
  | cons w ws ih => exact ih (filed_apply h w)

private theorem reports_write (s : Store R) (ws : List (Write R)) :
    s.Reports (s.write ws) ((Write.changes s.rows ws).map .changed) where
  log := rfl
  rows := fun key => (find?_changes s.rows ws key).symm
  filed := fun hs => filed_applyAll hs ws

private theorem reports_notifyAll (s : Store R) {es : List (Event R)} (he : told es = []) :
    s.Reports (s.notifyAll es) es where
  log := rfl
  rows := by
    intro key
    rw [he]
    rfl
  filed := id

private theorem reports_notify (s : Store R) {e : Event R} (he : e.entry? = none) : s.Reports (s.notify e) [e] :=
  reports_notifyAll s (by rw [told,List.filterMap_cons_none he]; rfl)

end Store

/-! ### What the reconciler reports -/

namespace Reconciler

/-- One reconciler comes after another, and its store has reported what makes the difference. -/
def Reported (r r' : Reconciler R) : Prop := ∃ es, r.store.Reports r'.store es

variable {r r' r'' : Reconciler R}

private theorem reported_of_store_eq (h : r'.store = r.store) : r.Reported r' :=
  ⟨[],by rw [h]; exact .refl r.store⟩

theorem Reported.trans (h : r.Reported r') (h' : r'.Reported r'') : r.Reported r'' := by
  obtain ⟨es,hes⟩ := h
  obtain ⟨fs,hfs⟩ := h'
  exact ⟨es ++ fs,hes.trans hfs⟩

private theorem reported_write {ws : List (Write R)} (h : r'.store = r.store.write ws) : r.Reported r' :=
  ⟨_,by rw [h]; exact r.store.reports_write ws⟩

private theorem reported_notify (r : Reconciler R) {e : Event R} (he : e.entry? = none) : r.Reported (r.notify e) :=
  ⟨_,r.store.reports_notify he⟩

private theorem reported_announce (r : Reconciler R) (cs : List Confirmation) : r.Reported (r.announce cs) := by
  refine ⟨_,r.store.reports_notifyAll ?_⟩
  rw [told,List.filterMap_eq_nil_iff]
  intro e he
  obtain ⟨c,_,rfl⟩ := List.mem_map.mp he
  rfl

private theorem reported_retire (r : Reconciler R) (key : String) (value : Option R) {e : Event R}
    (he : e.entry? = none) : r.Reported ((r.retire key value).notify e) :=
  Reported.trans (reported_write rfl) (reported_notify _ he)

private theorem reported_stage {fresh : String} {m : Mutation R} {st : Staging} (h : r.stage fresh m = .ok (r',st)) :
    r.Reported r' := by
  obtain ⟨_,⟨p,_,_,_,rfl⟩ | ⟨w,_,_,_,rfl⟩⟩ := stage_eq_ok rfl h
  · exact reported_write rfl
  · exact reported_write rfl

private theorem reported_rollBack (r : Reconciler R) (key : String) (id : Nat) (e : MutationError) :
    r.Reported (r.rollBack key id e) := by
  cases h : r.find? key id with
  | none =>
    rw [rollBack_of_none h]
    exact reported_of_store_eq rfl
  | some p =>
    rw [rollBack_of_some h]
    exact reported_retire r key p.base rfl

private theorem reported_awaitTxid {key : String} {id : Nat} {t : Txid} {b : Bool}
    (h : r.awaitTxid key id t = .ok (r',b)) : r.Reported r' := by
  obtain ⟨p,_,_,_,rfl⟩ := awaitTxid_eq_ok h
  split
  · exact reported_retire r key p.base rfl
  · exact reported_of_store_eq rfl

private theorem reported_settle (r : Reconciler R) (key : String) (id : Nat) (t : Txid) (m : Mutation R)
    (answer : Except AdapterError (Option R)) : r.Reported (r.settle key id t m answer).1 := by
  cases h : r.find? key id with
  | none =>
    rw [settle_of_none h]
    exact reported_of_store_eq rfl
  | some p =>
    rw [settle_of_some h]
    refine reported_retire r key _ ?_
    cases verdict key t m answer <;> rfl

private theorem reported_applyRemote (r : Reconciler R) (cs : List (RemoteChange R)) :
    r.Reported (r.applyRemote cs).1 :=
  Reported.trans (reported_write rfl) (reported_announce _ _)

private theorem reported_applySnapshot (r : Reconciler R) (rows : List R) (resync : Bool) :
    r.Reported (r.applySnapshot rows resync).1 := by
  cases resync with
  | false => exact Reported.trans (reported_write rfl) (reported_announce _ _)
  | true =>
    exact Reported.trans (reported_write rfl) (Reported.trans (reported_notify _ rfl) (reported_announce _ _))

end Reconciler

namespace Desk

/-- Whatever happens at a desk, its store reports what that makes of the rows. -/
theorem reported_step (d : Desk R) (a : Action R) : d.reconciler.Reported (d.step a).reconciler := by
  rw [step,act.eq_def]
  cases a with
  | stage fresh m =>
    dsimp only
    cases h : d.stage fresh m with
    | error e => exact Reconciler.reported_of_store_eq rfl
    | ok x =>
      obtain ⟨d',st⟩ := x
      obtain ⟨r,hr,rfl⟩ := stage_eq_ok h
      exact Reconciler.reported_stage hr
  | discard id => exact Reconciler.reported_of_store_eq rfl
  | submit id =>
    rcases reconciler_submit d id with h | ⟨s,m,h⟩
    · exact Reconciler.reported_of_store_eq (congrArg _ h)
    · refine Reconciler.reported_of_store_eq ?_
      dsimp only
      obtain ⟨p,_,_,_,hr⟩ | ⟨_,_,_,hr⟩ := Reconciler.beginSubmit_eq_ok h
      · rw [hr]
      · rw [hr]
  | abort id => exact Reconciler.reported_of_store_eq rfl
  | reply id answer =>
    rcases reconciler_reply d id answer with h | ⟨key,e,h⟩ | ⟨key,t,b,h⟩
    · exact Reconciler.reported_of_store_eq (congrArg _ h)
    · dsimp only
      rw [h]
      exact Reconciler.reported_rollBack _ key id e
    · exact Reconciler.reported_awaitTxid h
  | expire id => exact Reconciler.reported_of_store_eq (congrArg _ (reconciler_expire d id))
  | read id answer =>
    rcases reconciler_read d id answer with h | ⟨f,t,_,_,_,h⟩
    · exact Reconciler.reported_of_store_eq (congrArg _ h)
    · dsimp only
      rw [h]
      exact Reconciler.reported_settle _ f.key id t f.mutation answer
  | advance ms => exact Reconciler.reported_of_store_eq rfl
  | remote cs =>
    dsimp only
    rw [reconciler_remote]
    exact Reconciler.reported_applyRemote _ cs
  | snapshot rows resync =>
    dsimp only
    rw [reconciler_snapshot]
    exact Reconciler.reported_applySnapshot _ rows resync
  | seed rows => exact Reconciler.reported_write rfl
  | close => exact Reconciler.reported_of_store_eq rfl

end Desk

/-! ### A listener -/

/-- A listener after it has received something. -/
def Listener.pass {ε : Type} (l : Listener) : Channel.Received ε → Listener
  | .lagged n => ⟨l.place + n⟩
  | .event _ => ⟨l.place + 1⟩

namespace Channel

variable {ε : Type}

def Received.isLagged : Received ε → Bool
  | .lagged _ => true
  | .event _ => false

private theorem drop_of_receive {c : Channel ε} {l : Listener} {e : ε} {xs : List (Received ε)}
    (h : c.receive l = .event e::xs) : ∃ es, c.log.drop l.place = e::es := by
  rw [receive] at h
  split at h
  · next hlost =>
    rw [hlost,List.drop_zero,List.nil_append] at h
    obtain ⟨e',es,hes,he,_⟩ := List.map_eq_cons_iff.mp h
    exact ⟨es,by rw [hes,Received.event.inj he]⟩
  · cases h

end Channel

/-- A desk at work, and a listener who watches its table. The events of a write are sent one by one, when the
rows have changed already. -/
structure Watch (R : Type) where
  desk : Desk R
  /-- What was sent. -/
  channel : Channel (Event R)
  unsent : List (Event R)
  listener : Option Listener
  /-- The rows that the listener has taken down. -/
  listed : Option (List R)
  heard : List (Channel.Received (Event R))

/-- What may come next. Something happens at the desk, or to the store directly, only when all events so far
are sent. -/
inductive WatchStep (R : Type) where
  | act (a : Action R)
  | store (ws : List (Write R))
  | send
  /-- An event that tells of no row. -/
  | notice (e : Event R) (he : e.entry? = none)
  | subscribe
  | list
  /-- The listener receives one more thing, if there is any. -/
  | hear

namespace Watch

def create (capacity timeout : Nat) : Watch R :=
  ⟨.create capacity timeout,.create capacity,[],none,none,[]⟩

def work (w : Watch R) (d : Desk R) : Watch R :=
  match w.unsent with
  | [] =>
    let old := w.desk.reconciler.store.channel.log
    { w with desk := d, unsent := d.reconciler.store.channel.log.drop old.length }
  | _::_ => w

def hear (w : Watch R) : Watch R :=
  match w.listener with
  | none => w
  | some l =>
    match w.channel.receive l with
    | [] => w
    | x::_ => { w with listener := some (l.pass x), heard := w.heard ++ [x] }

def step (w : Watch R) : WatchStep R → Watch R
  | .act a => w.work (w.desk.step a)
  | .store ws => w.work (w.desk.store ws)
  | .send =>
    match w.unsent with
    | [] => w
    | e::es => { w with channel := w.channel.send e, unsent := es }
  | .notice e _ => { w with channel := w.channel.send e }
  | .subscribe => { w with listener := some w.channel.listen, listed := none, heard := [] }
  | .list => { w with listed := w.listener.map fun _ => w.desk.reconciler.store.list }
  | .hear => w.hear

def after (w : Watch R) (steps : List (WatchStep R)) : Watch R := steps.foldl step w

/-- What the listener has yet to hear. -/
def coming (w : Watch R) : List (Event R) :=
  (match w.listener with
    | none => []
    | some l => w.channel.log.drop l.place) ++ w.unsent

/-- Carry out on some rows what was heard. -/
def rebuilt (rows : List R) (heard : List (Channel.Received (Event R))) : Table String R :=
  heard.foldl (fun t x => match x with
    | .lagged _ => t
    | .event e => e.apply t) (imageOf rows)

variable {w : Watch R}

/-! ### What the listener knows -/

/-- What holds of a listener who has not lagged: it has heard what was sent since it began to listen, and the
rows that it has taken down are those that all events make up to some later one. -/
structure Follows (w : Watch R) : Prop where
  known : ∀ key, w.desk.row? key = lastUnder key (told (w.channel.log ++ w.unsent)) none
  filed : ∀ key, FiledUnder key (w.desk.row? key)
  listening : w.listed.isSome → w.listener.isSome
  placed : ∀ {l}, w.listener = some l → (∀ x ∈ w.heard, x.isLagged = false) →
    ∃ old new rest, w.channel.log = old ++ (new ++ rest) ∧ w.heard = new.map .event ∧
      l.place = old.length + new.length ∧ ∀ {rows}, w.listed = some rows → ∃ seen later,
        told (w.channel.log ++ w.unsent) = told old ++ (seen ++ later) ∧
        ∀ key, (imageOf rows).find? key = lastUnder key (told old ++ seen) none

private theorem follows_create (capacity timeout : Nat) : (create capacity timeout : Watch R).Follows where
  known := fun _ => rfl
  filed := fun key => filedUnder_none key
  listening := nofun
  placed := nofun

/-- More events leave the listener where it is. -/
theorem Follows.onward (h : w.Follows) {d : Desk R} {c : Channel (Event R)} {unsent : List (Event R)}
    (ext : List (Event R)) (more : List (String × Option R)) (hlog : c.log = w.channel.log ++ ext)
    (htold : told (c.log ++ unsent) = told (w.channel.log ++ w.unsent) ++ more)
    (hrows : ∀ key, d.row? key = lastUnder key more (w.desk.row? key))
    (hfiled : ∀ key, FiledUnder key (d.row? key)) :
    ({ w with desk := d, channel := c, unsent } : Watch R).Follows where
  known := by
    intro key
    rw [hrows,h.known,htold,lastUnder_append]
  filed := hfiled
  listening := h.listening
  placed := by
    intro l hl hlag
    obtain ⟨old,new,rest,hsplit,hheard,hplace,hlisted⟩ := h.placed hl hlag
    refine ⟨old,new,rest ++ ext,?_,hheard,hplace,?_⟩
    · rw [hlog,hsplit,List.append_assoc,List.append_assoc]
    · intro rows hrows
      obtain ⟨seen,later,hseen,hfind⟩ := hlisted hrows
      refine ⟨seen,later ++ more,?_,hfind⟩
      rw [htold,hseen,List.append_assoc,List.append_assoc]

private theorem follows_work (h : w.Follows) {d : Desk R} (hd : w.desk.reconciler.Reported d.reconciler) :
    (w.work d).Follows := by
  rw [work]
  split
  · next hunsent =>
    obtain ⟨es,hes⟩ := hd
    have hnew : d.reconciler.store.channel.log.drop w.desk.reconciler.store.channel.log.length = es := by
      rw [hes.log,List.drop_left]
    dsimp only
    rw [hnew]
    refine h.onward [] (told es) (List.append_nil _).symm ?_ hes.rows (hes.filed h.filed)
    rw [hunsent,List.append_nil,told_append]
  · exact h

private theorem follows_hear (h : w.Follows) : w.hear.Follows := by
  rw [hear]
  split
  · exact h
  · next l hl =>
    split
    · exact h
    · next x xs hx =>
      refine ⟨h.known,h.filed,fun _ => rfl,?_⟩
      rintro _ ⟨⟩ hlag
      obtain ⟨old,new,rest,hsplit,hheard,hplace,hlisted⟩ := h.placed hl fun y hy =>
        hlag y (List.mem_append_left _ hy)
      cases x with
      | lagged n => cases hlag _ (List.mem_append_right _ List.mem_cons_self)
      | event e =>
        obtain ⟨es,hes⟩ := Channel.drop_of_receive hx
        have hrest : rest = e::es := by
          rw [hsplit,hplace,← List.append_assoc,← List.length_append,List.drop_left] at hes
          exact hes
        refine ⟨old,new ++ [e],es,?_,?_,?_,hlisted⟩
        · rw [hsplit,hrest,List.append_assoc]
          rfl
        · rw [hheard,List.map_append]
          rfl
        · rw [Listener.pass,List.length_append,hplace]
          rfl

private theorem follows_step (h : w.Follows) (s : WatchStep R) : (w.step s).Follows := by
  cases s with
  | act a => exact follows_work h (w.desk.reported_step a)
  | store ws => exact follows_work h (Reconciler.reported_write rfl)
  | send =>
    rw [step]
    split
    · exact h
    · next e es hunsent =>
      refine h.onward [e] [] rfl ?_ (fun _ => rfl) h.filed
      rw [hunsent,List.append_nil]
      exact congrArg told (List.append_cons _ _ _).symm
  | notice e he =>
    refine h.onward [e] [] rfl ?_ (fun _ => rfl) h.filed
    have hnothing : told [e] = [] := List.filterMap_cons_none he
    rw [told_append,told_append,List.append_nil,Channel.send,told_append,hnothing,List.append_nil]
  | subscribe =>
    refine ⟨h.known,h.filed,nofun,?_⟩
    rintro _ ⟨⟩ _
    exact ⟨w.channel.log,[],[],(List.append_nil _).symm,rfl,rfl,nofun⟩
  | list =>
    refine ⟨h.known,h.filed,?_,?_⟩
    · intro hsome
      rwa [step,Option.isSome_map] at hsome
    · intro l hl hlag
      obtain ⟨old,new,rest,hsplit,hheard,hplace,_⟩ := h.placed hl hlag
      refine ⟨old,new,rest,hsplit,hheard,hplace,?_⟩
      intro rows hrows
      have hlist : w.desk.reconciler.store.rows.values = rows := by
        obtain ⟨_,_,hrows⟩ := Option.map_eq_some_iff.mp hrows
        exact hrows
      have htold : told (w.channel.log ++ w.unsent) = told old ++ told (new ++ rest ++ w.unsent) := by
        rw [hsplit,List.append_assoc,told_append]
      refine ⟨told (new ++ rest ++ w.unsent),[],?_,?_⟩
      · rw [List.append_nil]
        exact htold
      · intro key
        rw [← hlist,imageOf_values h.filed,← htold]
        exact h.known key
  | hear => exact follows_hear h

theorem follows_after (h : w.Follows) (steps : List (WatchStep R)) : (w.after steps).Follows := by
  induction steps generalizing w with
  | nil => exact h
  | cons s steps ih => exact ih (follows_step h s)

private theorem Follows.rebuilt_eq (h : w.Follows) {rows : List R} (hrows : w.listed = some rows)
    (hlag : ∀ x ∈ w.heard, x.isLagged = false) :
    w.coming.foldl Event.apply (rebuilt rows w.heard) = w.desk.reconciler.store.rows := by
  obtain ⟨l,hl⟩ := Option.isSome_iff_exists.mp (h.listening (by rw [hrows]; rfl))
  obtain ⟨old,new,rest,hsplit,hheard,hplace,hlisted⟩ := h.placed hl hlag
  obtain ⟨seen,later,hseen,hfind⟩ := hlisted hrows
  have hcoming : w.coming = rest ++ w.unsent := by
    rw [coming,hl]
    dsimp only
    rw [hsplit,hplace,← List.append_assoc,← List.length_append,List.drop_left]
  -- All that was told since the listener began is what the rows show of it, and what came later.
  have hsince : told new ++ told w.coming = seen ++ later := by
    rw [hcoming,← told_append]
    rw [hsplit,List.append_assoc,told_append,List.append_assoc] at hseen
    exact List.append_cancel_left hseen
  apply Table.ext_find?
  intro key
  rw [find?_events,rebuilt,hheard,List.foldl_map,find?_events,hfind,← lastUnder_append,hsince,
    lastUnder_append,lastUnder_append,lastUnder_again]
  refine Eq.trans ?_ (h.known key).symm
  rw [hseen,lastUnder_append,lastUnder_append]

/-- The rows that a listener has taken down, with every change that it has heard carried out on them, are those
of the store, but for the changes that it has yet to hear. It does not matter when the rows were taken down. -/
theorem rebuilt_of_heard (capacity timeout : Nat) (steps : List (WatchStep R)) {rows : List R}
    (hrows : ((create capacity timeout).after steps).listed = some rows)
    (hlag : ∀ x ∈ ((create capacity timeout : Watch R).after steps).heard, x.isLagged = false) :
    let w : Watch R := (create capacity timeout).after steps
    w.coming.foldl Event.apply (rebuilt rows w.heard) = w.desk.reconciler.store.rows ∧
      (w.coming = [] → rebuilt rows w.heard = w.desk.reconciler.store.rows) := by
  intro w
  have hall := (follows_after (follows_create capacity timeout) steps).rebuilt_eq hrows hlag
  refine ⟨hall,?_⟩
  intro hcoming
  rw [← hall,show ((create capacity timeout).after steps).coming = [] from hcoming]
  rfl

/-- A listener takes down the rows in the middle of a write, of which it has heard one half already. -/
def midWrite : List (WatchStep Entity) := [
  .store [.upsert (.inState "E1" .ready)],.send,.subscribe,
  .store [.upsert (.inState "E1" .validated),.upsert (.inState "E2" .ready)],.send,.hear,.list,
  .send,.store [.delete "E1"],.send,.hear,.hear]

theorem rebuilt_of_heard_midWrite :
    let w : Watch Entity := (create 16 30000).after midWrite
    w.listed = some [.inState "E1" .validated,.inState "E2" .ready] ∧
      (∀ x ∈ w.heard, x.isLagged = false) ∧ w.coming = [] ∧
      rebuilt [.inState "E1" .validated,.inState "E2" .ready] w.heard = w.desk.reconciler.store.rows := by
  intro w
  have hlisted : w.listed = some [.inState "E1" .validated,.inState "E2" .ready] := by decide +kernel
  have hlag : ∀ x ∈ w.heard, x.isLagged = false := by decide +kernel
  have hcoming : w.coming = [] := by decide +kernel
  exact ⟨hlisted,hlag,hcoming,(rebuilt_of_heard 16 30000 midWrite hlisted hlag).2 hcoming⟩

end Watch
end FieldReplica
