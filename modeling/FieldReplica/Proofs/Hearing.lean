import FieldReplica.Proofs.Counter
import FieldReplica.Proofs.Submission

/-!
# A counter where everybody listens is a desk

A desk tells a submission of its confirmation at once. A counter says it on a line, and the submission hears it when
it listens. If all listen after every action, then the counter is the desk, action for action; and whenever they
listen, what is noted of a pending mutation fits together.
-/
namespace FieldReplica

variable {R : Type}

/-- A submission with what its line says while it waits for the server's row. -/
def Trip.flight (lines : Nat → Line) (t : Trip R) : Flight R where
  id := t.id
  key := t.key
  mutation := t.mutation
  phase := t.phase
  signal := match t.phase, lines t.id with
    | .reading _, .said txid => some txid
    | _, _ => none

/-- Whether a submission waits for its confirmation. -/
def Flight.waits (f : Flight R) : Bool :=
  match f.phase with
  | .confirmation _ _ => true
  | _ => false

/-- Who goes on waiting once all have listened. -/
def waitingOn (lines : Nat → Line) (ts : List (Trip R)) : List (Flight R) :=
  (ts.filter fun t => (t.heard lines).isNone).map (Trip.flight lines)

def endings (lines : Nat → Line) (ts : List (Trip R)) : List (Effect R) :=
  ts.filterMap fun t => (t.heard lines).map fun result => .resolved t.id result

section
variable {ls ls' : Nat → Line} {t : Trip R} {ts us : List (Trip R)}

private theorem Trip.heard_congr (h : ls' t.id = ls t.id) : t.heard ls' = t.heard ls := by
  simp only [heard,h]

private theorem Trip.flight_congr (h : ls' t.id = ls t.id) : t.flight ls' = t.flight ls := by
  simp only [flight,h]

@[simp] theorem Trip.id_flight (ls : Nat → Line) (t : Trip R) : (t.flight ls).id = t.id := rfl

private theorem waitingOn_append (ls : Nat → Line) (ts us : List (Trip R)) :
    waitingOn ls (ts ++ us) = waitingOn ls ts ++ waitingOn ls us := by
  simp [waitingOn]

private theorem endings_append (ls : Nat → Line) (ts us : List (Trip R)) :
    endings ls (ts ++ us) = endings ls ts ++ endings ls us := by
  simp [endings]

private theorem waitingOn_congr (h : ∀ t ∈ ts, ls' t.id = ls t.id) : waitingOn ls' ts = waitingOn ls ts := by
  have hfilter : (ts.filter fun t => (t.heard ls').isNone) = ts.filter fun t => (t.heard ls).isNone :=
    List.filter_congr fun t ht => by rw [Trip.heard_congr (h t ht)]
  rw [waitingOn,hfilter,waitingOn]
  exact List.map_congr_left fun t ht => Trip.flight_congr (h t (List.mem_filter.mp ht).1)

private theorem endings_congr (h : ∀ t ∈ ts, ls' t.id = ls t.id) : endings ls' ts = endings ls ts :=
  List.filterMap_congr fun t ht => by rw [Trip.heard_congr (h t ht)]

private theorem ids_waitingOn {f : Flight R} (hf : f ∈ waitingOn ls ts) : ∃ t ∈ ts, t.id = f.id := by
  obtain ⟨t,ht,rfl⟩ := List.mem_map.mp hf
  exact ⟨t,(List.mem_filter.mp ht).1,rfl⟩

private theorem waitingOn_of_unheard (h : ∀ t ∈ ts, t.heard ls = none) :
    waitingOn ls ts = ts.map (Trip.flight ls) ∧ endings ls ts = [] := by
  constructor
  · rw [waitingOn,List.filter_eq_self.mpr]
    intro t ht
    rw [h t ht]
    rfl
  · refine List.filterMap_eq_nil_iff.mpr fun t ht => ?_
    rw [h t ht]
    rfl

/-! ### One submission between others -/

variable {id : Nat} {u v : List (Flight R)} {f : Flight R}

private theorem find?_between (hf : f.id = id) (hu : ∀ g ∈ u, g.id ≠ id) :
    (u ++ f::v).find? (·.id = id) = some f := by
  have hnone : u.find? (fun g => decide (g.id = id)) = none :=
    List.find?_eq_none.mpr fun g hg => by simpa using hu g hg
  rw [List.find?_append,hnone,Option.none_or,List.find?_cons_of_pos (by simpa using hf)]

private theorem filter_between (hf : f.id = id) (hu : ∀ g ∈ u, g.id ≠ id) (hv : ∀ g ∈ v, g.id ≠ id) :
    (u ++ f::v).filter (·.id ≠ id) = u ++ v := by
  have hall : ∀ w : List (Flight R), (∀ g ∈ w, g.id ≠ id) → w.filter (·.id ≠ id) = w :=
    fun w hw => List.filter_eq_self.mpr fun g hg => decide_eq_true (hw g hg)
  rw [List.filter_append,List.filter_cons_of_neg (by simpa using hf),hall u hu,hall v hv]

private theorem map_between (hf : f.id = id) (hu : ∀ g ∈ u, g.id ≠ id) (hv : ∀ g ∈ v, g.id ≠ id)
    (x : Flight R → Flight R) : (u ++ f::v).map (fun g => if g.id = id then x g else g) = u ++ x f::v := by
  have hall : ∀ w : List (Flight R), (∀ g ∈ w, g.id ≠ id) →
      w.map (fun g => if g.id = id then x g else g) = w := by
    intro w hw
    rw [List.map_congr_left (g := fun g => g) fun g hg => if_neg (hw g hg),List.map_id']
  rw [List.map_append,List.map_cons,if_pos hf,hall u hu,hall v hv]

/-! ### A confirmation -/

/-- The desk tells one submission between others at once what it hears on its line. -/
theorem wakeOne_between {c : Confirmation} {d : Desk R} {t : Trip R} (ht : t.id = c.id)
    (hd : d.flights = u ++ t.flight ls::v) (hu : ∀ g ∈ u, g.id ≠ c.id) (hv : ∀ g ∈ v, g.id ≠ c.id) :
    (d.wakeOne c).1 =
      { d with flights := u ++ (waitingOn (Function.update ls c.id (.said c.txid)) [t] ++ v) } ∧
    (d.wakeOne c).2 = endings (Function.update ls c.id (.said c.txid)) [t] := by
  have hfind : d.find? c.id = some (t.flight ls) := by
    rw [Desk.find?,hd]
    exact find?_between ht hu
  obtain ⟨i,key,m,phase⟩ := t
  obtain rfl : i = c.id := ht
  rw [Desk.wakeOne,hfind]
  cases phase with
  | reply =>
    have htold : waitingOn (Function.update ls c.id (.said c.txid)) [(⟨c.id,key,m,.reply⟩ : Trip R)] =
        [Trip.flight ls ⟨c.id,key,m,.reply⟩] := rfl
    rw [htold,List.singleton_append,← hd]
    exact ⟨rfl,rfl⟩
  | confirmation t deadline =>
    have htold : waitingOn (Function.update ls c.id (.said c.txid))
        [(⟨c.id,key,m,.confirmation t deadline⟩ : Trip R)] = [] := by simp [waitingOn,Trip.heard]
    have hend : endings (Function.update ls c.id (.said c.txid))
        [(⟨c.id,key,m,.confirmation t deadline⟩ : Trip R)] =
          [.resolved c.id (.ok (.confirmed key c.txid))] := by simp [endings,Trip.heard]
    rw [htold,hend,List.nil_append]
    refine ⟨?_,rfl⟩
    simp only [Trip.flight,Desk.resolve,Desk.without,hd]
    exact congrArg (fun fs => ({ d with flights := fs } : Desk R)) (filter_between rfl hu hv)
  | reading t =>
    have htold : waitingOn (Function.update ls c.id (.said c.txid)) [(⟨c.id,key,m,.reading t⟩ : Trip R)] =
        [{ Trip.flight ls ⟨c.id,key,m,.reading t⟩ with signal := some c.txid }] := by
      simp [waitingOn,Trip.heard,Trip.flight]
    have hid : (Trip.flight ls ⟨c.id,key,m,.reading t⟩).id = c.id := rfl
    have hmap := map_between hid hu hv fun f => { f with signal := some c.txid }
    rw [htold]
    refine ⟨?_,rfl⟩
    simp only [Trip.flight,hd]
    exact congrArg (fun fs => ({ d with flights := fs } : Desk R)) hmap

/-- Telling one submission on its line is what the desk does at once. -/
theorem wakeOne_waitingOn {c : Confirmation} {d : Desk R} (hsilent : ls c.id = .silent)
    (hts : (ts.map (·.id)).Nodup) (hd : d.flights = waitingOn ls ts) :
    (d.wakeOne c).1 = { d with flights := waitingOn (Function.update ls c.id (.said c.txid)) ts } ∧
    (endings ls ts ++ (d.wakeOne c).2).Perm (endings (Function.update ls c.id (.said c.txid)) ts) := by
  have hother : ∀ us : List (Trip R), (∀ t ∈ us, t.id ≠ c.id) →
      ∀ t ∈ us, Function.update ls c.id (.said c.txid) t.id = ls t.id :=
    fun us h t ht => Function.update_of_ne (h t ht) _ _
  have hflights : ∀ us : List (Trip R), (∀ t ∈ us, t.id ≠ c.id) → ∀ f ∈ waitingOn ls us, f.id ≠ c.id := by
    intro us h f hf
    obtain ⟨t,ht,hid⟩ := ids_waitingOn hf
    exact hid ▸ h t ht
  by_cases hmem : ∃ t ∈ ts, t.id = c.id
  · obtain ⟨t,ht,hid⟩ := hmem
    obtain ⟨us,vs,rfl⟩ := List.append_of_mem ht
    rw [List.map_append,List.map_cons,List.nodup_append,List.nodup_cons] at hts
    obtain ⟨_,⟨hvs,_⟩,hus⟩ := hts
    have hus : ∀ u ∈ us, u.id ≠ c.id := fun u hu =>
      hid ▸ hus u.id (List.mem_map_of_mem hu) t.id List.mem_cons_self
    have hvs : ∀ v ∈ vs, v.id ≠ c.id := fun v hv he =>
      hvs (hid.trans he.symm ▸ List.mem_map_of_mem (f := (·.id)) hv)
    have hunheard : t.heard ls = none := by
      rw [Trip.heard,hid,hsilent]
      split <;> rfl
    have hone : waitingOn ls [t] = [t.flight ls] := by simp [waitingOn,hunheard]
    have hnone : endings ls [t] = [] := by simp [endings,hunheard]
    have hsplit : ∀ ls, waitingOn ls (us ++ t::vs) = waitingOn ls us ++ (waitingOn ls [t] ++ waitingOn ls vs) :=
      fun ls => by rw [waitingOn_append,← waitingOn_append ls [t]]; rfl
    have hends : ∀ ls, endings ls (us ++ t::vs) = endings ls us ++ (endings ls [t] ++ endings ls vs) :=
      fun ls => by rw [endings_append,← endings_append ls [t]]; rfl
    rw [hsplit,hone] at hd
    obtain ⟨hdesk,htold⟩ := wakeOne_between hid hd (hflights us hus) (hflights vs hvs)
    rw [hsplit,hends,hends,hnone,waitingOn_congr (hother us hus),waitingOn_congr (hother vs hvs),
      endings_congr (hother us hus),endings_congr (hother vs hvs),htold,List.nil_append,List.append_assoc]
    exact ⟨hdesk,List.perm_append_comm.append_left _⟩
  · have hne : ∀ t ∈ ts, t.id ≠ c.id := fun t ht hid => hmem ⟨t,ht,hid⟩
    have hfind : d.find? c.id = none := by
      rw [Desk.find?,hd]
      exact List.find?_eq_none.mpr fun f hf => by simpa using hflights ts hne f hf
    rw [waitingOn_congr (hother ts hne),endings_congr (hother ts hne),Desk.wakeOne,hfind,← hd]
    exact ⟨rfl,by simp⟩

private theorem wake_waitingOn {cs : List Confirmation} {d : Desk R} (h : Board.Tells ls cs ls')
    (hts : (ts.map (·.id)).Nodup) (hd : d.flights = waitingOn ls ts) :
    (d.wake cs).1 = { d with flights := waitingOn ls' ts } ∧
      (endings ls ts ++ (d.wake cs).2).Perm (endings ls' ts) := by
  induction cs generalizing ls d with
  | nil =>
    obtain rfl : ls' = ls := h
    rw [Desk.wake,← hd]
    exact ⟨rfl,by simp⟩
  | cons c cs ih =>
    obtain ⟨hone,hends⟩ := wakeOne_waitingOn h.1 hts hd
    obtain ⟨hrest,hall⟩ := ih (d := (d.wakeOne c).1) h.2 (by rw [hone])
    rw [Desk.wake]
    dsimp only
    refine ⟨by rw [hrest,hone],?_⟩
    rw [← List.append_assoc]
    exact (hends.append_right _).trans hall

end

namespace Counter

variable [Row R]

/-- The desk that a counter is when nobody has anything to hear. -/
def desk (c : Counter R) : Desk R :=
  ⟨c.board.reconciler,c.handles,c.trips.map (Trip.flight c.board.lines),c.timeout,c.now⟩

/-- Each action, and all listen. -/
def prompt (as : List (Action R)) : List (Turn R) :=
  as.flatMap fun a => [.act a,.listen fun _ => true]

/-- No mutation is submitted twice, and nobody has anything to hear. -/
structure Settled (c : Counter R) : Prop where
  solo : (c.trips.map (·.id)).Nodup
  unheard : ∀ t ∈ c.trips, t.heard c.board.lines = none

variable {c : Counter R} {b' : Board R} {id : Nat}

omit [Row R] in
private theorem listen_all (c : Counter R) : c.listen (fun _ => true) =
    ({ c with trips := c.trips.filter fun t => (t.heard c.board.lines).isNone },
      endings c.board.lines c.trips) := by
  rw [listen,endings]
  simp [Option.not_isSome]

omit [Row R] in
/-- All listen: the desk goes on with those who heard nothing. -/
theorem desk_listen (c : Counter R) : (c.listen fun _ => true).1.desk =
    { c.desk with flights := waitingOn c.board.lines c.trips } := by
  rw [listen_all]
  rfl

omit [Row R] in
private theorem settled_listen (h : (c.trips.map (·.id)).Nodup) : (c.listen fun _ => true).1.Settled := by
  rw [listen_all]
  refine ⟨h.sublist ((List.filter_sublist).map _),fun t ht => ?_⟩
  exact Option.isNone_iff_eq_none.mp (List.mem_filter.mp ht).2

/-! ### Actions that nobody hears of -/

omit [Row R] in
private theorem find?_desk (c : Counter R) (id : Nat) :
    c.desk.find? id = (c.find? id).map (Trip.flight c.board.lines) := by
  rw [Desk.find?,desk,List.find?_map]
  rfl

omit [Row R] in
/-- As long as the lines of the submissions are as they were, they wait as they did. -/
theorem Settled.of_lines (h : c.Settled) (hs : List Staged) (now : Nat)
    (hl : ∀ t ∈ c.trips, b'.lines t.id = c.board.lines t.id) :
    Settled ⟨b',hs,c.trips,c.timeout,now⟩ ∧ desk ⟨b',hs,c.trips,c.timeout,now⟩ =
      { c.desk with reconciler := b'.reconciler, handles := hs, now := now } := by
  refine ⟨⟨h.solo,fun t ht => (Trip.heard_congr (hl t ht)).trans (h.unheard t ht)⟩,?_⟩
  have hflights : c.trips.map (Trip.flight b'.lines) = c.trips.map (Trip.flight c.board.lines) :=
    List.map_congr_left fun t ht => Trip.flight_congr (hl t ht)
  rw [desk,hflights]
  rfl

omit [Row R] in
private theorem flights_without (hl : ∀ i, i ≠ id → b'.lines i = c.board.lines i) :
    (c.trips.filter (·.id ≠ id)).map (Trip.flight b'.lines) =
      (c.trips.map (Trip.flight c.board.lines)).filter (·.id ≠ id) := by
  rw [List.filter_map]
  exact List.map_congr_left fun t ht =>
    Trip.flight_congr (hl t.id (of_decide_eq_true (List.mem_filter.mp ht).2))

omit [Row R] in
theorem Settled.without (h : c.Settled) (hl : ∀ i, i ≠ id → b'.lines i = c.board.lines i) :
    (({ c with board := b' } : Counter R).without id).Settled := by
  refine ⟨h.solo.sublist ((List.filter_sublist).map _),fun t ht => ?_⟩
  obtain ⟨ht,hne⟩ := List.mem_filter.mp ht
  exact (Trip.heard_congr (hl t.id (of_decide_eq_true hne))).trans (h.unheard t ht)

omit [Row R] in
private theorem desk_resolve (hl : ∀ i, i ≠ id → b'.lines i = c.board.lines i)
    (result : Except MutationError Outcome) :
    (({ c with board := b' } : Counter R).resolve id result).1.desk =
      (({ c.desk with reconciler := b'.reconciler } : Desk R).resolve id result).1 := by
  simp only [resolve,without,desk,Desk.resolve,Desk.without,flights_without hl]

omit [Row R] in
theorem Settled.requeue (h : c.Settled) {t : Trip R} (hl : ∀ i, i ≠ t.id → b'.lines i = c.board.lines i)
    (ht : t.heard b'.lines = none) : (({ c with board := b' } : Counter R).requeue t).Settled := by
  have hrest : (({ c with board := b' } : Counter R).without t.id).Settled := h.without hl
  refine ⟨?_,fun u hu => ?_⟩
  · refine List.Nodup.perm ?_ ((List.perm_append_singleton _ _).map _).symm
    refine List.nodup_cons.mpr ⟨fun hmem => ?_,hrest.solo⟩
    obtain ⟨u,hu,hid⟩ := List.mem_map.mp hmem
    exact of_decide_eq_true (List.mem_filter.mp hu).2 hid
  · rcases List.mem_append.mp hu with hu | hu
    · exact hrest.unheard u hu
    · obtain rfl := List.mem_singleton.mp hu
      exact ht

omit [Row R] in
private theorem desk_requeue {t : Trip R} (hl : ∀ i, i ≠ t.id → b'.lines i = c.board.lines i) :
    (({ c with board := b' } : Counter R).requeue t).desk =
      ({ c.desk with reconciler := b'.reconciler } : Desk R).requeue (t.flight b'.lines) := by
  simp only [requeue,without,desk,Desk.requeue,Desk.without,List.map_append,flights_without hl,
    Trip.id_flight]
  rfl

/-- What is done to a counter and to its desk is the same, and nobody has anything to hear of it. -/
structure Quiet (x : Counter R × List (Effect R)) (y : Desk R × List (Effect R)) : Prop where
  settled : x.1.Settled
  desk : y = (x.1.desk,x.2)

omit [Row R] in
private theorem quiet_requeue (h : c.Settled) {t : Trip R} (hl : ∀ i, i ≠ t.id → b'.lines i = c.board.lines i)
    (ht : t.heard b'.lines = none) (es : List (Effect R)) :
    Quiet (({ c with board := b' } : Counter R).requeue t,es)
      (({ c.desk with reconciler := b'.reconciler } : Desk R).requeue (t.flight b'.lines),es) :=
  ⟨h.requeue hl ht,by rw [desk_requeue hl]⟩

omit [Row R] in
private theorem quiet_resolve (h : c.Settled) (hl : ∀ i, i ≠ id → b'.lines i = c.board.lines i)
    (result : Except MutationError Outcome) :
    Quiet (({ c with board := b' } : Counter R).resolve id result)
      (({ c.desk with reconciler := b'.reconciler } : Desk R).resolve id result) :=
  ⟨h.without hl,Prod.ext (desk_resolve hl result).symm rfl⟩

private theorem quiet_stage (h : c.Sound) (hc : c.Settled) (fresh : String) (m : Mutation R) :
    Quiet (c.act (.stage fresh m)) (c.desk.act (.stage fresh m)) := by
  have hbind : c.desk.stage fresh m = (c.board.reconciler.stage fresh m >>= _) := rfl
  rw [h.board.reconciler_stage fresh m] at hbind
  cases hst : c.board.stage fresh m with
  | error e =>
    have hact : c.act (.stage fresh m) = (c,[]) := by simp only [act,stage,hst]
    rw [hst] at hbind
    rw [hact]
    refine ⟨hc,?_⟩
    simp only [Desk.act,hbind]
    rfl
  | ok x =>
    obtain ⟨b',st⟩ := x
    rw [hst] at hbind
    rcases h.board.stage_cases hst with ⟨key,s,rfl,hs,hunsent,htouch,_⟩ | ⟨g,rfl,_,hadd⟩
    · have hact : c.act (.stage fresh m) = ({ c with board := b' },[]) := by simp only [act,stage,hst]
      have hne : ∀ t ∈ c.trips, t.id ≠ s.id := by
        intro t ht he
        rw [(h.trip t ht).sent key s hs he.symm] at hunsent
        cases hunsent
      obtain ⟨hsettled,hdesk⟩ := hc.of_lines c.handles c.now fun t ht =>
        htouch.line t.id (hne t ht)
      rw [hact]
      refine ⟨hsettled,?_⟩
      rw [hdesk]
      simp only [Desk.act,hbind]
      rfl
    · have hact : c.act (.stage fresh m) = ({ c with board := b', handles := c.handles ++ [g] },[]) := by
        simp only [act,stage,hst]
      obtain ⟨hsettled,hdesk⟩ := hc.of_lines (c.handles ++ [g]) c.now fun t ht =>
        hadd.line t.id (Nat.ne_of_lt (h.trip t ht).known)
      rw [hact]
      refine ⟨hsettled,?_⟩
      rw [hdesk]
      simp only [Desk.act,hbind]
      rfl

private theorem quiet_submit (h : c.Sound) (hc : c.Settled) (id : Nat) : Quiet (c.submit id) (c.desk.submit id) := by
  have hhandles : c.desk.handles = c.handles := rfl
  cases hg : c.handles.find? (·.id = id) with
  | none =>
    rw [submit,hg,Desk.submit,hhandles,hg]
    exact ⟨hc,rfl⟩
  | some g =>
    have hid : g.id = id := by simpa using List.find?_some hg
    subst hid
    have hu := h.handle g (List.mem_of_find?_eq_some hg)
    have hview := h.board.reconciler_beginSubmit (g := g) fun s hs hi => hu.unsent g.key s hs hi
    have hrest : (c.discard g.id).Settled := ⟨hc.solo,hc.unheard⟩
    have hreconciler : (c.desk.discard g.id).reconciler = c.board.reconciler := rfl
    rw [submit,hg,Desk.submit,hhandles,hg]
    dsimp only
    rw [hreconciler,hview]
    have hboard : (c.discard g.id).board = c.board := rfl
    rw [hboard]
    cases hb : c.board.beginSubmit g with
    | error e => exact ⟨hrest,rfl⟩
    | ok x =>
      obtain ⟨b',m | _⟩ := x
      · obtain ⟨_,_,hlines,_⟩ := h.board.touches_beginSubmit hb
        exact quiet_requeue hrest (t := ⟨g.id,g.key,m,.reply⟩) (fun i _ => congrFun hlines i) rfl _
      · exact ⟨hrest,rfl⟩

private theorem quiet_reply (h : c.Sound) (hc : c.Settled) (id : Nat) (answer : Except AdapterError Txid) :
    Quiet (c.reply id answer) (c.desk.reply id answer) := by
  rw [reply,Desk.reply,find?_desk]
  cases hf : c.find? id with
  | none => exact ⟨hc,rfl⟩
  | some t =>
    obtain ⟨i,key,m,phase⟩ := t
    obtain ⟨hmem,rfl⟩ := mem_of_find? hf
    cases phase with
    | confirmation t deadline => exact ⟨hc,rfl⟩
    | reading t => exact ⟨hc,rfl⟩
    | reply =>
      have hsent := (h.trip _ hmem).sent
      cases answer with
      | error e =>
        have htouch := h.board.touches_rollBack key i (.ofAdapter e)
        have hquiet := quiet_resolve hc htouch.line (.error (.ofAdapter e))
        rw [h.board.reconciler_rollBack] at hquiet
        exact hquiet
      | ok t =>
        have hview := h.board.reconciler_awaitTxid key i t
        have hreconciler : c.desk.reconciler = c.board.reconciler := rfl
        simp only [Option.map_some,Trip.flight,hreconciler]
        rw [hview]
        cases hb : c.board.awaitTxid key i t with
        | error e => exact quiet_resolve hc (fun _ _ => rfl) (.error e)
        | ok x =>
          obtain ⟨b',_ | _⟩ := x
          · obtain ⟨_,hlines⟩ := h.board.touches_awaitTxid hsent hb
            obtain ⟨hlines,s,hs⟩ := hlines rfl
            obtain ⟨hs,hi⟩ := Board.find?_eq_some.mp hs
            have hi : s.id = i := hi
            have hsilent : b'.lines i = .silent := by
              rw [hlines,← hi]
              exact h.board.unused key s hs
            refine quiet_requeue hc (t := ⟨i,key,m,.confirmation t (c.now + c.timeout)⟩)
              (fun i _ => congrFun hlines i) ?_ []
            simp only [Trip.heard,hsilent]
          · obtain ⟨htouch,_⟩ := h.board.touches_awaitTxid hsent hb
            exact quiet_resolve hc htouch.line (.ok (.confirmed key t))

omit [Row R] in
private theorem quiet_expire (hc : c.Settled) (id : Nat) : Quiet (c.expire id) (c.desk.expire id) := by
  rw [expire,Desk.expire,find?_desk]
  cases hf : c.find? id with
  | none => exact ⟨hc,rfl⟩
  | some t =>
    obtain ⟨i,key,m,phase⟩ := t
    obtain ⟨hmem,rfl⟩ := mem_of_find? hf
    cases phase with
    | reply => exact ⟨hc,rfl⟩
    | reading t => exact ⟨hc,rfl⟩
    | confirmation t deadline =>
      have hunheard := hc.unheard _ hmem
      simp only [Option.map_some,Trip.flight,hunheard]
      have hnow : c.desk.now = c.now := rfl
      rw [hnow]
      split
      · have hsilent : c.board.lines i = .silent := by
          rw [Trip.heard] at hunheard
          cases hline : c.board.lines i <;> simp [hline] at hunheard ⊢
        have hlines : ∀ j, j ≠ i → c.board.lines j = c.board.lines j := fun _ _ => rfl
        have hquiet := quiet_requeue hc (t := ⟨i,key,m,.reading t⟩) hlines rfl [.fetchRow key]
        simp only [Trip.flight,hsilent] at hquiet
        exact hquiet
      · exact ⟨hc,rfl⟩

private theorem quiet_read (h : c.Sound) (hc : c.Settled) (id : Nat) (answer : Except AdapterError (Option R)) :
    Quiet (c.read id answer) (c.desk.read id answer) := by
  rw [read,Desk.read,find?_desk]
  cases hf : c.find? id with
  | none => exact ⟨hc,rfl⟩
  | some t =>
    obtain ⟨i,key,m,phase⟩ := t
    obtain ⟨hmem,rfl⟩ := mem_of_find? hf
    cases phase with
    | reply => exact ⟨hc,rfl⟩
    | confirmation t deadline => exact ⟨hc,rfl⟩
    | reading t =>
      have hview := h.board.reconciler_settle key i t m answer
      have hreconciler : c.desk.reconciler = c.board.reconciler := rfl
      have htouch := h.board.touches_settle key i t m answer
      simp only [Option.map_some,Trip.flight,hreconciler]
      cases hline : c.board.lines i with
      | said txid => exact quiet_resolve hc (fun _ _ => rfl) (.ok (.confirmed key txid))
      | silent =>
        simp only [hview]
        exact quiet_resolve hc htouch.line _
      | cut =>
        simp only [hview]
        exact quiet_resolve hc htouch.line _

/-! ### Actions that submissions hear of -/

/-- What is done to a counter is done to its desk once all have listened. -/
structure Mirrors (x : Counter R × List (Effect R)) (y : Desk R × List (Effect R)) : Prop where
  settled : (x.1.listen fun _ => true).1.Settled
  desk : (x.1.listen fun _ => true).1.desk = y.1
  effects : (x.2 ++ (x.1.listen fun _ => true).2).Perm y.2

omit [Row R] in
/-- Where nobody has anything to hear, listening changes nothing. -/
theorem Quiet.mirrors {x : Counter R × List (Effect R)} {y : Desk R × List (Effect R)} (h : Quiet x y) :
    Mirrors x y := by
  obtain ⟨hwaiting,hends⟩ := waitingOn_of_unheard h.settled.unheard
  refine ⟨settled_listen h.settled.solo,?_,?_⟩
  · rw [desk_listen,hwaiting,h.desk]
    rfl
  · rw [listen_all,hends,h.desk,List.append_nil]

omit [Row R] in
/-- What the stream tells is heard by the submissions that the desk wakes. -/
theorem mirrors_wake (hc : c.Settled) {cs : List Confirmation}
    (ht : Board.Tells c.board.lines cs b'.lines) :
    Mirrors ({ c with board := b' },[]) (({ c.desk with reconciler := b'.reconciler } : Desk R).wake cs) := by
  obtain ⟨hwaiting,hends⟩ := waitingOn_of_unheard hc.unheard
  obtain ⟨hdesk,heffects⟩ := wake_waitingOn (d := { c.desk with reconciler := b'.reconciler }) ht hc.solo
    hwaiting.symm
  refine ⟨settled_listen hc.solo,?_,?_⟩
  · rw [desk_listen,hdesk]
    rfl
  · rw [hends] at heffects
    rw [listen_all]
    exact heffects.symm

private theorem mirrors_remote (h : c.Sound) (hc : c.Settled) (cs : List (RemoteChange R)) :
    Mirrors (c.act (.remote cs)) (c.desk.act (.remote cs)) := by
  have hview := h.board.reconciler_applyRemote cs
  have hdesk : c.desk.act (.remote cs) =
      ({ c.desk with reconciler := (c.board.applyRemote cs).1.reconciler } : Desk R).wake
        (c.board.applyRemote cs).2 := by
    have hreconciler : c.desk.reconciler = c.board.reconciler := rfl
    simp only [Desk.act,Desk.remote,hreconciler,hview]
  rw [hdesk]
  exact mirrors_wake hc (h.board.leads_applyRemote cs).tells

private theorem mirrors_snapshot (h : c.Sound) (hc : c.Settled) (rows : List R) (resync : Bool) :
    Mirrors (c.act (.snapshot rows resync)) (c.desk.act (.snapshot rows resync)) := by
  have hview := h.board.reconciler_applySnapshot rows resync
  have hdesk : c.desk.act (.snapshot rows resync) =
      ({ c.desk with reconciler := (c.board.applySnapshot rows resync).1.reconciler } : Desk R).wake
        (c.board.applySnapshot rows resync).2 := by
    have hreconciler : c.desk.reconciler = c.board.reconciler := rfl
    simp only [Desk.act,Desk.snapshot,hreconciler,hview]
  rw [hdesk]
  exact mirrors_wake hc (h.board.leads_applySnapshot rows resync).tells

omit [Row R] in
private theorem desk_close (d : Desk R) : d.close =
    ({ d with reconciler := d.reconciler.close, flights := d.flights.filter fun f => !f.waits },
      (d.flights.filter Flight.waits).map fun f => .resolved f.id (.error .closed)) := rfl

private theorem mirrors_close (h : c.Sound) (hc : c.Settled) : Mirrors (c.act .close) (c.desk.act .close) := by
  have hlines : (c.act .close).1.board.lines = fun i => if c.board.lines i = .silent then .cut
    else c.board.lines i := funext h.board.lines_close
  have htrips : (c.act .close).1.trips = c.trips := rfl
  have hreconciler : c.desk.reconciler.close = c.board.close.reconciler := h.board.reconciler_close.symm
  -- who waits has heard nothing so far, and so has a line that is cut now
  have hheard : ∀ t ∈ c.trips, t.heard (c.act .close).1.board.lines =
      if (t.flight c.board.lines).waits then some (.error .closed) else none := by
    intro t ht
    have hunheard := hc.unheard t ht
    rw [Trip.heard] at hunheard ⊢
    rw [Flight.waits,Trip.flight]
    cases hphase : t.phase with
    | reply => rfl
    | reading _ => rfl
    | confirmation txid deadline =>
      rw [hphase] at hunheard
      rw [hlines]
      cases hline : c.board.lines t.id <;> simp [hline] at hunheard ⊢
  have hflight : ∀ t ∈ c.trips, t.flight (c.act .close).1.board.lines = t.flight c.board.lines := by
    intro t _
    simp only [Trip.flight,hlines]
    cases t.phase <;> cases c.board.lines t.id <;> simp
  have hwaits : ∀ t ∈ c.trips,
      (t.heard (c.act .close).1.board.lines).isNone = !(t.flight c.board.lines).waits := by
    intro t ht
    rw [hheard t ht]
    cases (t.flight c.board.lines).waits <;> rfl
  refine ⟨settled_listen hc.solo,?_,?_⟩
  · have hflights : waitingOn (c.act .close).1.board.lines c.trips = c.desk.flights.filter fun f => !f.waits := by
      have hfilter := List.filter_congr hwaits
      rw [waitingOn,hfilter,desk,List.filter_map]
      exact List.map_congr_left fun t ht => hflight t (List.mem_filter.mp ht).1
    have hclose : c.desk.act .close = c.desk.close := rfl
    rw [desk_listen,htrips,hflights,hclose,desk_close,hreconciler]
    rfl
  · have hends : endings (c.act .close).1.board.lines c.trips =
        (c.desk.flights.filter Flight.waits).map fun f => .resolved f.id (.error .closed) := by
      rw [endings,desk,List.filter_map,List.map_map,← List.filterMap_eq_map,List.filterMap_filter]
      refine List.filterMap_congr fun t ht => ?_
      rw [hheard t ht]
      obtain ⟨i,key,m,phase⟩ := t
      cases phase <;> rfl
    rw [listen_all,htrips,hends]
    exact .refl _

private theorem mirrors_act (h : c.Sound) (hc : c.Settled) (a : Action R) : Mirrors (c.act a) (c.desk.act a) := by
  cases a with
  | stage fresh m => exact (quiet_stage h hc fresh m).mirrors
  | discard id => exact Quiet.mirrors ⟨⟨hc.solo,hc.unheard⟩,rfl⟩
  | submit id => exact (quiet_submit h hc id).mirrors
  | abort id =>
    have hlines : ∀ i, i ≠ id → c.board.lines i = c.board.lines i := fun _ _ => rfl
    have hquiet := quiet_resolve hc hlines (.error .closed)
    exact Quiet.mirrors ⟨hquiet.settled,congrArg (fun y => (y.1,[])) hquiet.desk⟩
  | reply id answer => exact (quiet_reply h hc id answer).mirrors
  | expire id => exact (quiet_expire hc id).mirrors
  | read id answer => exact (quiet_read h hc id answer).mirrors
  | advance ms => exact Quiet.mirrors ⟨⟨hc.solo,hc.unheard⟩,rfl⟩
  | remote cs => exact mirrors_remote h hc cs
  | snapshot rows resync => exact mirrors_snapshot h hc rows resync
  | seed rows =>
    refine Quiet.mirrors ⟨⟨hc.solo,hc.unheard⟩,?_⟩
    have hview := Board.reconciler_seed c.board rows
    exact congrArg (fun r => (({ c.desk with reconciler := r } : Desk R),[])) hview.symm
  | close => exact mirrors_close h hc

/-! ### Runs in which all listen -/

/-- A run of a counter in which all listen after each action is the run of its desk. -/
theorem mirrors_after (h : c.Sound) (hc : c.Settled) (as : List (Action R)) :
    (c.after (prompt as)).Settled ∧ (c.after (prompt as)).desk = c.desk.after as ∧
      (c.effects (prompt as)).Perm (c.desk.effects as) := by
  induction as generalizing c with
  | nil => exact ⟨hc,rfl,.nil⟩
  | cons a as ih =>
    have hmirrors := mirrors_act h hc a
    have hsound := sound_step (sound_step h (.act a)) (.listen fun _ => true)
    obtain ⟨hsettled,hdesk,heffects⟩ := ih hsound hmirrors.settled
    have hstep : ((c.step (.act a)).step (.listen fun _ => true)).desk = c.desk.step a := hmirrors.desk
    rw [hstep] at hdesk heffects
    refine ⟨hsettled,hdesk,?_⟩
    have hfirst : ((c.take (.act a)).2 ++ ((c.step (.act a)).take (.listen fun _ => true)).2).Perm
        (c.desk.act a).2 := hmirrors.effects
    have heq : c.effects (prompt (a::as)) = (c.take (.act a)).2 ++
      (((c.step (.act a)).take (.listen fun _ => true)).2 ++
        ((c.step (.act a)).step (.listen fun _ => true)).effects (prompt as)) := rfl
    rw [heq,← List.append_assoc]
    exact hfirst.append heffects

/-! ### The records of a run -/

omit [Row R] in
private theorem settled_create (capacity timeout : Nat) : (create capacity timeout : Counter R).Settled :=
  ⟨.nil,nofun⟩

/-- A line that ends a wait with `closed` was cut, and the board is closed. -/
theorem closed_of_heard (h : c.Sound) {t : Trip R} (ht : t ∈ c.trips)
    (hheard : t.heard c.board.lines = some (.error .closed)) : c.board.closed = true := by
  apply (h.trip t ht).uncut
  rw [Trip.heard] at hheard
  cases hline : c.board.lines t.id with
  | cut => rfl
  | silent => cases hphase : t.phase <;> simp [hline,hphase] at hheard
  | said txid => cases hphase : t.phase <;> simp [hline,hphase] at hheard

omit [Row R] in
private theorem resolved_of_results {x : Except MutationError Outcome} {es : List (Effect R)}
    (h : x ∈ results id es) : .resolved id x ∈ es := by
  obtain ⟨e,he,hx⟩ := List.mem_filterMap.mp h
  cases e with
  | submit m => cases hx
  | fetchRow key => cases hx
  | resolved i y =>
    dsimp only at hx
    split at hx
    · next hi =>
      obtain rfl := Option.some.inj hx
      exact hi ▸ he
    · cases hx

private theorem closed_of_listen (h : c.Sound) {who : Nat → Bool}
    (hr : .error .closed ∈ results id (c.listen who).2) : c.board.closed = true := by
  obtain ⟨t,ht,hresult⟩ := List.mem_filterMap.mp (resolved_of_results hr)
  obtain ⟨result,hheard,heq⟩ := Option.map_eq_some_iff.mp hresult
  obtain ⟨_,rfl⟩ := Effect.resolved.inj heq
  exact closed_of_heard h (List.mem_filter.mp ht).1 hheard

private theorem closed_of_expire (h : c.Sound) {i : Nat}
    (hr : .error .closed ∈ results id (c.expire i).2) : c.board.closed = true := by
  have hr := resolved_of_results hr
  rw [expire] at hr
  split at hr
  · next j key m t deadline hf =>
    obtain ⟨hmem,rfl⟩ := mem_of_find? hf
    split at hr
    · split at hr
      · next result hheard =>
        obtain ⟨_,rfl⟩ := Effect.resolved.inj (List.mem_singleton.mp hr)
        exact closed_of_heard h hmem hheard
      · cases List.mem_singleton.mp hr
    · cases hr
  · cases hr

/-- Whatever happens and whoever listens when, the parts of each slip agree with each other, with its line and with
the other slips, and a closed board has none. So a full image takes no slip off without telling its confirmation,
and a submission hears that its line was cut only after the board was closed. What is reached with all listening
at once is what the desk reaches. -/
theorem slips_agree_along_runs (capacity timeout : Nat) (ts : List (Turn R)) :
    let c : Counter R := (create capacity timeout).after ts
    c.board.Sound ∧
    (c.board.closed = true ↔ .act .close ∈ ts) ∧
    (∀ rows resync key s, c.board.slips.find? key = some s →
      (c.step (.act (.snapshot rows resync))).board.slips.find? key = none →
      ∃ t, s.txid = some t ∧ ⟨s.id,key,t⟩ ∈ (c.board.applySnapshot rows resync).2 ∧
        (c.step (.act (.snapshot rows resync))).board.lines s.id = .said t) ∧
    (∀ id, (∃ who, .error .closed ∈ results id (c.take (.listen who)).2) ∨
        (∃ i, .error .closed ∈ results id (c.take (.act (.expire i))).2) → .act .close ∈ ts) ∧
    ∀ as, ((create capacity timeout : Counter R).after (prompt as)).desk =
        (Desk.create capacity timeout).after as ∧
      ((create capacity timeout : Counter R).effects (prompt as)).Perm
        ((Desk.create capacity timeout).effects as) := by
  intro c
  have hsound : c.Sound := sound_after (sound_create capacity timeout) ts
  have hclosed : c.board.closed = true ↔ .act .close ∈ ts := by
    refine (closed_after (sound_create capacity timeout) ts).trans (or_iff_right ?_)
    exact nofun
  refine ⟨hsound.board,hclosed,fun rows resync key s hs hgone => ?_,fun id hends => ?_,fun as => ?_⟩
  · have hlead := hsound.board.leads_applySnapshot rows resync
    rcases hlead.gone key s hs with ⟨q,hq,_⟩ | ⟨t,ht,hmem⟩
    · cases hgone.symm.trans hq
    · exact ⟨t,ht,hmem,hlead.tells.said hmem⟩
  · rcases hends with ⟨who,hr⟩ | ⟨i,hr⟩
    · exact hclosed.mp (closed_of_listen hsound hr)
    · exact hclosed.mp (closed_of_expire hsound hr)
  · obtain ⟨_,hdesk,heffects⟩ :=
      mirrors_after (sound_create capacity timeout) (settled_create capacity timeout) as
    exact ⟨hdesk,heffects⟩

/-- Two features are changed, and the server has accepted both changes. -/
def twoAccepted : List (Turn Entity) := [
  .act (.remote [⟨"E1",some (.inState "E1" .ready),[]⟩,⟨"E2",some (.inState "E2" .ready),[]⟩]),
  .act (.stage "" (Entity.setStatus "E1" .validated)),
  .act (.stage "" (Entity.setStatus "E2" .validated)),
  .act (.submit 1),
  .act (.submit 2),
  .act (.reply 1 (.ok ⟨42⟩)),
  .act (.reply 2 (.ok ⟨43⟩))]

/-- An image that shows the first change confirms it, and if the board closes now, the second ends with that. -/
theorem slips_agree_along_runs_twoAccepted :
    let c : Counter Entity := (create 8 30000).after twoAccepted
    (∃ s, c.board.slips.find? "E1" = some s ∧ ∃ t, s.txid = some t ∧
      (c.step (.act (.snapshot [.inState "E1" .validated,.inState "E2" .ready] true))).board.lines s.id =
        .said t) ∧
    .error .closed ∈ results 2 (((create 8 30000 : Counter Entity).after
      (twoAccepted ++ [.act .close])).take (.listen fun _ => true)).2 ∧
    (.act .close : Turn Entity) ∈ twoAccepted ++ [.act .close] := by
  intro c
  have hone := slips_agree_along_runs (R := Entity) 8 30000 twoAccepted
  have htwo := slips_agree_along_runs (R := Entity) 8 30000 (twoAccepted ++ [.act .close])
  have hpresent : (c.board.slips.find? "E1").isSome = true := by decide +kernel
  have hgone : (c.step (.act (.snapshot [.inState "E1" .validated,.inState "E2" .ready]
      true))).board.slips.find? "E1" = none := by decide +kernel
  have hended : .error .closed ∈ results 2 (((create 8 30000 : Counter Entity).after
      (twoAccepted ++ [.act .close])).take (.listen fun _ => true)).2 := by decide +kernel
  obtain ⟨s,hs⟩ := Option.isSome_iff_exists.mp hpresent
  obtain ⟨t,ht,_,hline⟩ := hone.2.2.1 _ true "E1" s hs hgone
  exact ⟨⟨s,hs,t,ht,hline⟩,hended,htwo.2.2.2.1 2 (.inl ⟨_,hended⟩)⟩

end Counter
end FieldReplica
