import FieldReplica.Http.Rows
import FieldReplica.Http.Shape
import FieldReplica.Session.Basic

/-!
# Collections over a network

A collection whose requests go to an API. Requests are answered in the order in which they are made, and where
none is open, time passes to the next deadline.
-/
namespace FieldReplica.Http

/-- An API and the way to it. -/
structure Connection where
  api : Api
  network : Network

/-- A collection, the requests that are open, and the mutations that have ended. -/
structure Live (R : Type) where
  collection : Collection R
  asked : List (Activity R)
  ended : List (Nat × Except MutationError Outcome)

namespace Live

variable {R : Type} [Row R]

/-- Take in a step of the collection. -/
def after (l : Live R) (step : Collection R × List (Activity R)) : Live R :=
  { l with collection := step.1, asked := l.asked ++ step.2 }

/-- The submission of a key that waits in a given way. -/
def flight? (l : Live R) (key : String) (waits : Phase → Bool) : Option Nat :=
  (l.collection.desk.flights.find? fun f => f.key = key && waits f.phase).map (·.id)

/-- The API answers a request. -/
def answer (conn : Connection) (l : Live R) (a : Activity R) : Live R :=
  let c := l.collection
  let desk := c.desk
  match a with
  | .fetchSnapshot => l.after (c.receiveRows (conn.api.fetchRows R conn.network c.projectId))
  | .fetchBatch r => l.after (c.receiveBatch (conn.api.fetchShape conn.network r))
  | .desk (.submit m) =>
    match l.flight? m.key (· = .reply) with
    | some id => l.after (c.withDesk (desk.reply id (conn.api.submit conn.network c.projectId m)))
    | none => l
  | .desk (.fetchRow key) =>
    let reading := fun (p : Phase) => match p with
      | .reading _ => true
      | _ => false
    match l.flight? key reading with
    | some id => l.after (c.withDesk (desk.read id (conn.api.fetchRow R conn.network c.projectId key)))
    | none => l
  | .desk (.resolved id result) => { l with ended := l.ended ++ [(id, result)] }

/-- The next deadline takes effect; none if there is none. -/
def passTime? (l : Live R) : Option (Live R) :=
  let s : Session R := ⟨l.collection, .empty⟩
  match s.deadlines.mergeSort Session.Deadline.notAfter with
  | [] => none
  | d :: _ =>
    let desk := l.collection.desk
    let s := { s with collection := { l.collection with desk := desk.advance (d.moment - desk.now) } }
    s.step?.map fun (s, acts) => l.after (s.collection, acts)

def step? (conn : Connection) (l : Live R) : Option (Live R) :=
  match l.asked with
  | a :: rest => some ({ l with asked := rest }.answer conn a)
  | [] => l.passTime?

/-- Let things happen until there is a result, at most `n` of them. -/
def await {α : Type} (conn : Connection) (result : Live R → Option α) (l : Live R) :
    Nat → Option (Live R × α)
  | 0 => (result l).map (l, ·)
  | n + 1 =>
    match result l with
    | some a => some (l, a)
    | none =>
      match l.step? conn with
      | some l => await conn result l n
      | none => none

def start (projectId : Int64) (options : CollectionOptions) : Live R :=
  let (c, acts) := Collection.start projectId options none
  ⟨c, acts, []⟩

/-- Stage and submit a mutation, and wait for its end. -/
def mutate (conn : Connection) (l : Live R) (fresh : String) (m : Mutation R) (n : Nat) :
    Option (Live R × Except MutationError Outcome) :=
  match l.collection.desk.stage fresh m with
  | .error e => some (l, .error e)
  | .ok (desk, .cancelled key) =>
    some ({ l with collection := { l.collection with desk } }, .ok (.cancelled key))
  | .ok (desk, .staged s) =>
    let l := l.after (l.collection.withDesk (desk.submit s.id))
    l.await conn (fun l => (l.ended.find? (·.1 = s.id)).map (·.2)) n

end Live
end FieldReplica.Http
