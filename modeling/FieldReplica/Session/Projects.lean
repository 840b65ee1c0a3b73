import FieldReplica.Registry.Basic
import FieldReplica.Session.Script

/-!
# Scripts over a registry

A registry that is played command by command. Each project view has a script for either of its two
collections; the prepared answers belong to a project's table and outlive the views of the project.
Labels also name the views that were opened.
-/
namespace FieldReplica

/-- The scripts of a view's collections. -/
structure ViewScript where
  entities : Script Entity
  taskEvents : Script TaskEvent

/-- What happened in both tables, and what ended for a view as a whole. -/
structure ViewNotes where
  entities : Notes Entity
  taskEvents : Notes TaskEvent
  endings : List (String × Ending)

namespace ViewNotes

def none : ViewNotes := ⟨.none, .none, []⟩

def append (a b : ViewNotes) : ViewNotes :=
  ⟨a.entities.append b.entities, a.taskEvents.append b.taskEvents, a.endings ++ b.endings⟩

def allEndings (n : ViewNotes) : List (String × Ending) :=
  n.entities.endings ++ n.taskEvents.endings ++ n.endings

end ViewNotes

/-- One who waits for both collections of a view, of which the entities come first. -/
structure ReadyWaiter where
  label : String
  number : Nat
  entitiesReady : Bool

/-- A command to a registry. -/
inductive ProjectCommand where
  | openAt (label : String) (project : Int64) (resume : Positions)
  | close (project : Int64)
  | closeAll
  | prepareEntities (project : Int64) (q : Replies Entity)
  | prepareTaskEvents (project : Int64) (q : Replies TaskEvent)
  | advance (ms : Nat)
  | ready (label : String) (number : Nat)
  | onEntities (number : Nat) (c : Command Entity)
  | onTaskEvents (number : Nat) (c : Command TaskEvent)

/-- The immediate result of a command to a registry. -/
inductive ProjectResult where
  | none
  /-- The number of a view, and whether it was opened for the command. -/
  | opened (number : Nat) (isNew : Bool)
  | wasOpen (b : Bool)
  | command (r : CommandResult)

/-- A registry, the scripts of its views by number, and the labels of views. -/
structure Workbench where
  registry : Registry
  scripts : List ViewScript
  entityReplies : Table Int64 (Replies Entity)
  taskEventReplies : Table Int64 (Replies TaskEvent)
  handles : List (String × Nat)
  waiters : List ReadyWaiter
  generated : Nat

namespace Workbench

def create (options : CollectionOptions) : Workbench :=
  ⟨.create options, [], .empty, .empty, [], [], 0⟩

def labelsOf (b : Workbench) (number : Nat) : List String :=
  ((b.handles.filter (·.2 = number)).map (·.1)).mergeSort fun x y => x ≤ y

/-- Work on the entities of a view with its script. -/
def onEntities {α : Type} (b : Workbench) (n : Nat) (idle : α)
    (work : Script Entity → Script Entity × α) : Workbench × α :=
  match b.scripts[n]?, b.registry.view? n with
  | some v, some p =>
    let replies := (b.entityReplies.find? p.projectId).getD .empty
    let (s, a) := work
      { v.entities with session := ⟨p.entities, replies⟩, generated := b.generated }
    let views := b.registry.views.set n { p with entities := s.collection }
    ({ b with
      registry := { b.registry with views }
      scripts := b.scripts.set n { v with entities := s }
      entityReplies := b.entityReplies.insert p.projectId s.session.replies
      generated := s.generated }, a)
  | _, _ => (b, idle)

/-- Work on the task events of a view with its script. -/
def onTaskEvents {α : Type} (b : Workbench) (n : Nat) (idle : α)
    (work : Script TaskEvent → Script TaskEvent × α) : Workbench × α :=
  match b.scripts[n]?, b.registry.view? n with
  | some v, some p =>
    let replies := (b.taskEventReplies.find? p.projectId).getD .empty
    let (s, a) := work
      { v.taskEvents with session := ⟨p.taskEvents, replies⟩, generated := b.generated }
    let views := b.registry.views.set n { p with taskEvents := s.collection }
    ({ b with
      registry := { b.registry with views }
      scripts := b.scripts.set n { v with taskEvents := s }
      taskEventReplies := b.taskEventReplies.insert p.projectId s.session.replies
      generated := s.generated }, a)
  | _, _ => (b, idle)

/-- Work on both collections of a view. -/
def onView (b : Workbench) (n : Nat) (first : Script Entity → Script Entity × Notes Entity)
    (second : Script TaskEvent → Script TaskEvent × Notes TaskEvent) : Workbench × ViewNotes :=
  let (b, entities) := b.onEntities n .none first
  let (b, taskEvents) := b.onTaskEvents n .none second
  (b, ⟨entities, taskEvents, []⟩)

/-- Note the activity of some views, and let everything happen in them that can. -/
def settle (b : Workbench) : List (Nat × ViewActivity) → Workbench × ViewNotes
  | [] => (b, .none)
  | (n, act) :: rest =>
    let (b, first) := b.onView n (·.settle act.entities) (·.settle act.taskEvents)
    let (b, rest) := b.settle rest
    (b, first.append rest)

def settleAll (b : Workbench) : Workbench × ViewNotes :=
  b.settle ((List.range b.scripts.length).map fun n => (n, ⟨[], []⟩))

def tick (b : Workbench) (ms : Nat) : List Nat → Workbench
  | [] => b
  | n :: ns =>
    let (b, _) := b.onView n
      (fun s => (s.withDesk (s.desk.advance ms), .none))
      (fun s => (s.withDesk (s.desk.advance ms), .none))
    b.tick ms ns

/-- Let those go on who wait for one collection of some views. -/
def releaseViews (b : Workbench) : List Nat → Workbench × ViewNotes
  | [] => (b, .none)
  | n :: ns =>
    let (b, first) := b.onView n (·.release) (·.release)
    let (b, rest) := b.releaseViews ns
    (b, first.append rest)

/-- What becomes of one who waits for a view: still waiting, or the end of the wait. -/
def checkWaiter (b : Workbench) (w : ReadyWaiter) : ReadyWaiter ⊕ Except CollectionError Unit :=
  match b.registry.view? w.number with
  | none => .inl w
  | some v =>
    match if w.entitiesReady then some (.ok ()) else v.entities.readiness with
    | none => .inl w
    | some (.error e) => .inr (.error e)
    | some (.ok ()) =>
      match v.taskEvents.readiness with
      | none => .inl { w with entitiesReady := true }
      | some r => .inr r

/-- Let those go on who wait for a collection or a view, if they can. -/
def release (b : Workbench) : Workbench × ViewNotes :=
  let (b, notes) := b.releaseViews (List.range b.scripts.length)
  let checked := b.waiters.map fun w => (w.label, b.checkWaiter w)
  let waiters := checked.filterMap fun c => match c.2 with
    | .inl w => some w
    | .inr _ => none
  let endings := checked.filterMap fun c => match c.2 with
    | .inl _ => none
    | .inr r => some (c.1, Ending.ready r)
  ({ b with waiters }, { notes with endings := notes.endings ++ endings })

def perform (b : Workbench) (naming : Nat → String) :
    ProjectCommand → Workbench × ProjectResult × ViewNotes
  | .openAt label project resume =>
    let (registry, n, activity) := b.registry.openAt project resume
    let b := { b with registry, handles := b.handles.filter (·.1 ≠ label) ++ [(label, n)] }
    match activity, registry.view? n with
    | some activity, some v =>
      let script : ViewScript := ⟨.ofCollection v.entities, .ofCollection v.taskEvents⟩
      let (b, notes) := { b with scripts := b.scripts ++ [script] }.settle [(n, activity)]
      (b, .opened n true, notes)
    | _, _ => (b, .opened n false, .none)
  | .close project =>
    let (registry, was, acts) := b.registry.close project
    let (b, notes) := { b with registry }.settle acts
    (b, .wasOpen was, notes)
  | .closeAll =>
    let (registry, acts) := b.registry.closeAll
    let (b, notes) := { b with registry }.settle acts
    (b, .none, notes)
  | .prepareEntities project q =>
    let replies := ((b.entityReplies.find? project).getD .empty).append q
    let (b, notes) := { b with entityReplies := b.entityReplies.insert project replies }.settleAll
    (b, .none, notes)
  | .prepareTaskEvents project q =>
    let replies := ((b.taskEventReplies.find? project).getD .empty).append q
    let (b, notes) :=
      { b with taskEventReplies := b.taskEventReplies.insert project replies }.settleAll
    (b, .none, notes)
  | .advance ms =>
    let (b, notes) := (b.tick ms (List.range b.scripts.length)).settleAll
    (b, .none, notes)
  | .ready label number =>
    ({ b with waiters := b.waiters ++ [⟨label, number, false⟩] }, .none, .none)
  | .onEntities n c =>
    let (b, result, notes) := b.onEntities n (.none, .none) fun s =>
      let (s, result, notes) := s.perform naming c
      (s, (result, notes))
    (b, .command result, ⟨notes, .none, []⟩)
  | .onTaskEvents n c =>
    let (b, result, notes) := b.onTaskEvents n (.none, .none) fun s =>
      let (s, result, notes) := s.perform naming c
      (s, (result, notes))
    (b, .command result, ⟨.none, notes, []⟩)

end Workbench
end FieldReplica
