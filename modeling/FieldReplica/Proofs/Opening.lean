import FieldReplica.Console.Run
import FieldReplica.Proofs.Confinement
import FieldReplica.Proofs.Effects
import FieldReplica.Proofs.Readiness

/-!
# What a command finds in a project and sends to it

While a project is being opened nobody stages anything, and whatever arrives is filed under its own key. The first
mutation that is staged on an open project is therefore sent as it is: the event that a command records has the key
that nothing had before, and the state that the rows of the project lead to.
-/
namespace FieldReplica

variable {R : Type} [Row R]

/-! ### Desks that nobody writes to -/

namespace Desk

/-- Nobody holds a mutation, and rows stand under their own keys. -/
structure Unheld (d : Desk R) : Prop where
  handles : d.handles = []
  rows : ∀ key, FiledUnder key (d.row? key)

namespace Unheld

variable {d d' : Desk R}

theorem congr (h : d.Unheld) (hh : d'.handles = d.handles)
    (hr : d'.reconciler.store.rows = d.reconciler.store.rows) : d'.Unheld where
  handles := hh.trans h.handles
  rows key := by
    rw [row?,Store.get?,hr]
    exact h.rows key

theorem create (capacity timeout : Nat) : (Desk.create capacity timeout : Desk R).Unheld where
  handles := rfl
  rows key := filedUnder_none key

theorem step (h : d.Unheld) {a : Action R} (ha : d.entrant? a = none) : (d.step a).Unheld where
  handles := List.eq_nil_iff_forall_not_mem.mpr fun s hs => by
    have hheld := (frame_step ha).handles s hs
    rw [h.handles] at hheld
    cases hheld
  rows := filed_rows_step h.rows a

theorem filed (h : d.Unheld) : d.reconciler.store.Filed := h.rows

end Unheld

omit [Row R] in
private theorem effects_submit {d : Desk R} {s : Staged} {p : Pending R}
    (hs : d.handles.find? (·.id = s.id) = some s) (hp : d.reconciler.find? s.key s.id = some p) :
    (d.submit s.id).2 = [.submit p.mutation] := by
  have hbegin : (d.discard s.id).reconciler.beginSubmit s = .ok ({ d.reconciler with
      ledger := d.reconciler.ledger.put s.key { p with progress := .submitted } },.send p.mutation) := by
    have hfound : (d.discard s.id).reconciler.find? s.key s.id = some p := hp
    rw [Reconciler.beginSubmit.eq_def,hfound]
    rfl
  rw [submit.eq_def,hs]
  dsimp only
  rw [hbegin]

/-- An insertion without a key that is staged first is sent first, under the key that it was given. -/
theorem Unheld.submit_of_stage {d d' : Desk R} (h : d.Unheld) {fresh : String} {row : R} {st : Staging}
    (hkey : Row.key row = "") (hs : d.stage fresh (.insert row) = .ok (d',st)) :
    ∃ s, st = .staged s ∧ (d'.submit s.id).2 = [.submit (.insert (Row.withKey row fresh))] := by
  have hn : Reconciler.withKey fresh (.insert row) = .insert (Row.withKey row fresh) := by
    rw [Reconciler.withKey,if_pos hkey]
  obtain ⟨r,hr,rfl⟩ := stage_eq_ok hs
  obtain ⟨_,⟨p,_,hcancel,_⟩ | ⟨w,_,_,rfl,rfl⟩⟩ := Reconciler.stage_eq_ok hn hr
  · simp [Reconciler.cancels,Mutation.kind] at hcancel
  · -- The new holder is the only one, and the record that staging has made is its own.
    refine ⟨_,rfl,effects_submit (p := ⟨d.reconciler.nextId,.insert (Row.withKey row fresh),.staged,
      d.reconciler.store.get? (Row.key (Row.withKey row fresh))⟩) ?_
      (Reconciler.find?_eq_some.mpr ⟨Table.find?_insert_self _ _ _,rfl⟩)⟩
    simp [h.handles]

end Desk

/-! ### While a collection waits -/

namespace Collection

variable {c : Collection R}

private theorem unheld_fetchNext (h : c.desk.Unheld) : c.fetchNext.1.desk.Unheld := by
  rw [desk_fetchNext]
  exact h

private theorem unheld_notify (h : c.desk.Unheld) (e : Event R) : (c.notify e).desk.Unheld := h.congr rfl rfl

private theorem unheld_apply (h : c.desk.Unheld) (e : ShapeEvent R) : (c.apply e).1.desk.Unheld := by
  cases e with
  | snapshot rows resync => exact h.step (a := .snapshot rows resync) rfl
  | changes cs => exact h.step (a := .remote cs) rfl
  | upToDate => exact h
  | reconnecting attempt delay reason => exact unheld_notify (c := { c with status := _ }) h _

private theorem unheld_receiveRows (h : c.desk.Unheld) (answer : Except AdapterError (List R)) :
    (c.receiveRows answer).1.desk.Unheld := by
  rw [receiveRows.eq_def]
  split
  · cases answer with
    | ok rows => exact unheld_fetchNext (c := { c with desk := c.desk.seed rows }) (h.step (a := .seed rows) rfl)
    | error e => exact unheld_fetchNext h
  · exact h

private theorem unheld_receiveBatch (h : c.desk.Unheld) (outcome : Except ShapeError ShapeResponse) :
    (c.receiveBatch outcome).1.desk.Unheld := by
  rw [receiveBatch]
  split
  · split
    · next s _ => exact unheld_fetchNext (c := { c with subscription := s }) h
    · next s e _ =>
      exact unheld_fetchNext (c := { ({ c with subscription := s } : Collection R).apply e |>.1 with
        position := s.position }) (unheld_apply (c := { c with subscription := s }) h e)
    · exact unheld_notify (c := { c with status := _, subscription := _, feed := _ }) h _
  · exact h

private theorem unheld_awaken (h : c.desk.Unheld) : c.awaken.1.desk.Unheld := by
  rw [awaken]
  split
  · split <;> exact h
  · exact h

private theorem unheld_start (projectId : Int64) (options : CollectionOptions) (resume : Option Position) :
    (start projectId options resume : Collection R × List (Activity R)).1.desk.Unheld := by
  rw [start.eq_def]
  dsimp only
  split
  · exact Desk.Unheld.create _ _
  · exact unheld_fetchNext (Desk.Unheld.create _ _)

end Collection

namespace Session

private theorem unheld_step? {s s' : Session R} {acts : List (Activity R)} (h : s.collection.desk.Unheld)
    (hs : s.step? = some (s',acts)) : s'.collection.desk.Unheld := by
  rw [step?] at hs
  split at hs
  · next r hr =>
    obtain rfl := Option.some.inj hs
    obtain ⟨f,_,hf⟩ := List.exists_of_findSome?_eq_some hr
    rw [answerFlight?] at hf
    split at hf
    · obtain ⟨⟨a,_⟩,_,hx⟩ := Option.map_eq_some_iff.mp hf
      obtain ⟨rfl,_⟩ := Prod.mk.inj hx
      exact h.step (a := .reply f.id a) rfl
    · obtain ⟨⟨a,_⟩,_,hx⟩ := Option.map_eq_some_iff.mp hf
      obtain ⟨rfl,_⟩ := Prod.mk.inj hx
      exact h.step (a := .read f.id a) rfl
    · cases hf
  · split at hs
    · next r hr =>
      obtain rfl := Option.some.inj hs
      rw [answerFeed?] at hr
      split at hr
      · obtain ⟨rfl,_⟩ := Prod.mk.inj (Option.some.inj hr)
        exact Collection.unheld_receiveRows h _
      · obtain ⟨rfl,_⟩ := Prod.mk.inj (Option.some.inj hr)
        exact Collection.unheld_receiveBatch h _
      · cases hr
    · split at hs
      · cases hs
      · obtain ⟨rfl,_⟩ := Prod.mk.inj (Option.some.inj hs)
        exact Collection.unheld_awaken h
      · next id _ _ =>
        obtain ⟨rfl,_⟩ := Prod.mk.inj (Option.some.inj hs)
        exact h.step (a := .expire id) rfl

end Session

namespace Http.Live

variable {conn : Connection} {l l' : Live R}

private theorem unheld_answer (h : l.collection.desk.Unheld) (a : Activity R) :
    (l.answer conn a).collection.desk.Unheld := by
  cases a with
  | fetchSnapshot => exact Collection.unheld_receiveRows h _
  | fetchBatch r => exact Collection.unheld_receiveBatch h _
  | desk e =>
    cases e with
    | submit m =>
      rw [answer.eq_def]
      dsimp only
      split
      · next id _ => exact h.step (a := .reply id _) rfl
      · exact h
    | fetchRow key =>
      rw [answer.eq_def]
      dsimp only
      split
      · next id _ => exact h.step (a := .read id _) rfl
      · exact h
    | resolved id result => exact h

private theorem unheld_passTime? (h : l.collection.desk.Unheld) (hl : l.passTime? = some l') :
    l'.collection.desk.Unheld := by
  rw [passTime?] at hl
  split at hl
  · cases hl
  · next d _ _ =>
    obtain ⟨⟨s,acts⟩,hs,rfl⟩ := Option.map_eq_some_iff.mp hl
    exact Session.unheld_step? (h.step (a := .advance (d.moment - l.collection.desk.now)) rfl) hs

private theorem unheld_step? (h : l.collection.desk.Unheld) (hl : l.step? conn = some l') :
    l'.collection.desk.Unheld := by
  rw [step?] at hl
  split at hl
  · next a rest _ =>
    obtain rfl := Option.some.inj hl
    exact unheld_answer (l := { l with asked := rest }) h a
  · exact unheld_passTime? h hl

private theorem unheld_await {α : Type} {result : Live R → Option α} {n : Nat} {a : α}
    (h : l.collection.desk.Unheld) (hl : l.await conn result n = some (l',a)) : l'.collection.desk.Unheld := by
  induction n generalizing l with
  | zero =>
    obtain ⟨_,_,hx⟩ := Option.map_eq_some_iff.mp hl
    obtain ⟨rfl,_⟩ := Prod.mk.inj hx
    exact h
  | succ n ih =>
    rw [await] at hl
    split at hl
    · obtain ⟨rfl,_⟩ := Prod.mk.inj (Option.some.inj hl)
      exact h
    · split at hl
      · next l'' hs => exact ih (unheld_step? h hs) hl
      · cases hl

end Http.Live

/-! ### Commands on an open project -/

namespace Console

namespace Task

variable {α β : Type} {a : α} {b : β}

private theorem run_bind_eq_ok {t : Task α} {f : α → Task β} (h : (t >>= f).run = some (.ok b)) :
    ∃ a, t.run = some (.ok a) ∧ (f a).run = some (.ok b) := by
  obtain ⟨x,hx,hb⟩ := Option.bind_eq_some_iff.mp (ExceptT.run_bind t f ▸ h)
  cases x with
  | error e => cases hb
  | ok a => exact ⟨a,hx,hb⟩

private theorem run_adapt_eq_ok {t : Task α} {f : Failure → Failure} (h : (t.adapt f).run = some (.ok a)) :
    t.run = some (.ok a) := by
  have hmap : Option.map (Except.mapError f) t.run = some (.ok a) := h
  obtain ⟨x,hx,ha⟩ := Option.map_eq_some_iff.mp hmap
  cases x with
  | error e => cases ha
  | ok b => rwa [← Except.ok.inj ha]

private theorem run_lift_eq_ok {x : Option α} (h : (ExceptT.lift x : Task α).run = some (.ok a)) : x = some a := by
  have hmap : x.map Except.ok = some (.ok a : Except Failure α) := h
  obtain ⟨b,hb,ha⟩ := Option.map_eq_some_iff.mp hmap
  exact hb.trans (congrArg some (Except.ok.inj ha))

end Task

namespace Environment

variable {env : Environment} {p : Project} {project task : Int64} {kind : TaskEventKind} {username : String}
  {comment : Option String} {e : TaskEvent}

private theorem unheld_complete {conn : Http.Connection} {l l' : Http.Live R} (h : l.collection.desk.Unheld)
    (hl : (env.complete conn l).run = some (.ok l')) : l'.collection.desk.Unheld := by
  obtain ⟨⟨l'',x⟩,hwait,hl⟩ := Task.run_bind_eq_ok hl
  cases x with
  | error e => cases hl
  | ok u =>
    obtain rfl := Except.ok.inj (Option.some.inj hl)
    exact Http.Live.unheld_await h (Task.run_lift_eq_ok hwait)

/-- In a project that has just been opened nobody holds a mutation, and rows stand under their own keys. -/
theorem unheld_openProject (h : (env.openProject project).run = some (.ok p)) :
    p.entities.collection.desk.Unheld ∧ p.taskEvents.collection.desk.Unheld := by
  obtain ⟨conn,_,h⟩ := Task.run_bind_eq_ok h
  obtain ⟨entities,hentities,h⟩ := Task.run_bind_eq_ok (Task.run_adapt_eq_ok h)
  obtain ⟨taskEvents,htaskEvents,h⟩ := Task.run_bind_eq_ok h
  obtain rfl := Except.ok.inj (Option.some.inj h)
  exact ⟨unheld_complete (Collection.unheld_start _ _ _) hentities,
    unheld_complete (Collection.unheld_start _ _ _) htaskEvents⟩

theorem run_showHistory (h : (env.openProject project).run = some (.ok p)) (task : Int64) :
    (env.showHistory project task).run =
      some (.ok (history (TaskEvent.history p.taskEvents.collection.store.list task))) := by
  rw [showHistory,ExceptT.run_bind,h]
  rfl

/-- A command that records an event of a task, without saying what state it leads to, has opened the project and
asks the server to insert the event. -/
structure Submits (env : Environment) (project task : Int64) (kind : TaskEventKind) (username : String)
    (comment : Option String) (p : Project) (e : TaskEvent) : Prop where
  opened : (env.openProject project).run = some (.ok p)
  asked : ∃ d s, p.taskEvents.collection.desk.stage env.freshKey (.insert
      (env.newEvent p.taskEvents.collection.store.list project task kind username comment none)) =
      .ok (d,.staged s) ∧ (d.submit s.id).2 = [.submit (.insert e)]

/-- The event is the one that follows from the rows of the project, under the key that nothing had. -/
theorem Submits.event_eq (h : env.Submits project task kind username comment p e) :
    e = Row.withKey (env.newEvent p.taskEvents.collection.store.list project task kind username comment none)
      env.freshKey := by
  obtain ⟨d,s,hstage,hsubmit⟩ := h.asked
  obtain ⟨s',hs,hsubmit'⟩ := (unheld_openProject h.opened).2.submit_of_stage rfl hstage
  obtain rfl := Staging.staged.inj hs
  have heffects := hsubmit'.symm.trans hsubmit
  simpa using heffects.symm

/-- An event that can be staged is one that the command asks for. -/
theorem submits_of_stage {d : Desk TaskEvent} {st : Staging} (hp : (env.openProject project).run = some (.ok p))
    (hs : p.taskEvents.collection.desk.stage env.freshKey (.insert
      (env.newEvent p.taskEvents.collection.store.list project task kind username comment none)) = .ok (d,st)) :
    env.Submits project task kind username comment p (Row.withKey
      (env.newEvent p.taskEvents.collection.store.list project task kind username comment none) env.freshKey) := by
  obtain ⟨s,rfl,hsubmit⟩ := (unheld_openProject hp).2.submit_of_stage rfl hs
  exact ⟨hp,d,s,hs,hsubmit⟩

/-- A command that reports an event as recorded has asked the server to insert one. -/
theorem submits_of_addEvent {r : Rendering}
    (h : (env.addEvent project task kind username comment none).run = some (.ok r)) :
    ∃ p e, env.Submits project task kind username comment p e := by
  obtain ⟨p,hp,h⟩ := Task.run_bind_eq_ok h
  obtain ⟨⟨l,outcome⟩,hmutate,_⟩ := Task.run_bind_eq_ok h
  obtain ⟨⟨l',x⟩,hlive,hx⟩ := Task.run_bind_eq_ok hmutate
  have hlive := Task.run_lift_eq_ok hlive
  cases x with
  | error e => cases hx
  | ok o =>
    rw [Http.Live.mutate.eq_def] at hlive
    split at hlive
    · cases hlive
    · next d key hstage => exact ⟨p,_,submits_of_stage hp hstage⟩
    · next d s hstage => exact ⟨p,_,submits_of_stage hp hstage⟩

end Environment
end Console
end FieldReplica
