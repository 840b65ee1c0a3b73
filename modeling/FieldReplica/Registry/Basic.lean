import FieldReplica.Collection.Tables

/-!
# The registry of open projects

A project view is the pair of collections of one project. A registry has at most one view of a project
registered at a time. Views are numbered in the order in which they are opened; a view that is closed
keeps its number, and whoever holds it sees it closed. Closing a project has two parts, which other calls
may come between: its registration goes, and then its collections are closed.
-/
namespace FieldReplica

/-- The collections of one project. -/
structure ProjectView where
  projectId : Int64
  entities : Collection Entity
  taskEvents : Collection TaskEvent

/-- What the two collections of a view do. -/
structure ViewActivity where
  entities : List (Activity Entity)
  taskEvents : List (Activity TaskEvent)

namespace ProjectView

/-- Open the collections of a project, each from its position if there is one. -/
def start (projectId : Int64) (options : CollectionOptions) (resume : Positions) :
    ProjectView × ViewActivity :=
  let (entities, first) := Collection.start projectId options resume.entities
  let (taskEvents, second) := Collection.start projectId options resume.taskEvents
  (⟨projectId, entities, taskEvents⟩, ⟨first, second⟩)

/-- Close both collections. -/
def close (v : ProjectView) : ProjectView × ViewActivity :=
  let (entities, first) := v.entities.close
  let (taskEvents, second) := v.taskEvents.close
  ({ v with entities, taskEvents }, ⟨first, second⟩)

/-- The positions from which later collections can go on. -/
def positions (v : ProjectView) : Positions := ⟨v.entities.position, v.taskEvents.position⟩

end ProjectView

/-- The views that were opened, by number, and the number of the view registered for each project. -/
structure Registry where
  options : CollectionOptions
  registered : Table Int64 Nat
  views : List ProjectView

namespace Registry

def create (options : CollectionOptions) : Registry := ⟨options, .empty, []⟩

/-- The number of a project's registered view. -/
def number? (r : Registry) (project : Int64) : Option Nat := r.registered.find? project

def isOpen (r : Registry) (project : Int64) : Bool := r.registered.contains project

/-- The registered projects in ascending order. -/
def openProjects (r : Registry) : List Int64 := r.registered.keys

def view? (r : Registry) (n : Nat) : Option ProjectView := r.views[n]?

/-- The registered view of a project. -/
def get? (r : Registry) (project : Int64) : Option ProjectView :=
  (r.number? project).bind r.view?

/-- The view of a project, which is opened if none is registered; positions count only then. The
activity is that of a view which is opened. -/
def openAt (r : Registry) (project : Int64) (resume : Positions) :
    Registry × Nat × Option ViewActivity :=
  match r.number? project with
  | some n => (r, n, none)
  | none =>
    let (view, activity) := ProjectView.start project r.options resume
    let n := r.views.length
    ({ r with registered := r.registered.insert project n, views := r.views ++ [view] }, n,
      some activity)

/-- Remove the registration of a project. -/
def unregister (r : Registry) (project : Int64) : Registry × Option Nat :=
  ({ r with registered := r.registered.erase project }, r.number? project)

/-- Remove all registrations. -/
def unregisterAll (r : Registry) : Registry × List Nat :=
  ({ r with registered := .empty }, r.registered.values)

/-- Close the collections of a view. -/
def shut (r : Registry) (n : Nat) : Registry × ViewActivity :=
  match r.view? n with
  | none => (r, ⟨[], []⟩)
  | some v =>
    let (v, activity) := v.close
    ({ r with views := r.views.set n v }, activity)

/-- Close some views in order. -/
def shutAll (r : Registry) : List Nat → Registry × List (Nat × ViewActivity)
  | [] => (r, [])
  | n :: ns =>
    let (r, activity) := r.shut n
    let (r, rest) := r.shutAll ns
    (r, (n, activity) :: rest)

/-- Close a project; the result says whether it was registered. -/
def close (r : Registry) (project : Int64) : Registry × Bool × List (Nat × ViewActivity) :=
  let (r, n) := r.unregister project
  let (r, activities) := r.shutAll n.toList
  (r, n.isSome, activities)

/-- Close every project. -/
def closeAll (r : Registry) : Registry × List (Nat × ViewActivity) :=
  let (r, ns) := r.unregisterAll
  r.shutAll ns

end Registry
end FieldReplica
