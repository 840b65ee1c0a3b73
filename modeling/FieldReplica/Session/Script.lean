import FieldReplica.Session.Basic

/-!
# Scripts

A session that is played command by command. What a command starts has a label, under which its end is
noted: the outcome of a submission, or that the collection has become ready. Keys that the session makes
up are numbered by a naming function.
-/
namespace FieldReplica

/-- How something that was started under a label ended. -/
inductive Ending where
  | outcome (r : Except MutationError Outcome)
  | ready (r : Except CollectionError Unit)
  | aborted

/-- A request that a collection makes. -/
inductive Request (R : Type) where
  | submit (m : Mutation R)
  | fetchRow (key : String)
  | fetchSnapshot
  | fetchBatch (r : ShapeRequest)

/-- What was asked, and what ended under which label. -/
structure Notes (R : Type) where
  requests : List (Request R)
  endings : List (String × Ending)

namespace Notes

variable {R : Type}

def none : Notes R := ⟨[], []⟩

def ended (label : String) (e : Ending) : Notes R := ⟨[], [(label, e)]⟩

def append (a b : Notes R) : Notes R := ⟨a.requests ++ b.requests, a.endings ++ b.endings⟩

end Notes

/-- A command of a script. -/
inductive Command (R : Type) where
  | stage (label : String) (m : Mutation R)
  | submit (label : String)
  | mutate (label : String) (m : Mutation R)
  | discard (label : String)
  | abort (label : String)
  /-- Prepare answers. -/
  | prepare (q : Replies R)
  | advance (ms : Nat)
  | remote (cs : List (RemoteChange R))
  | snapshot (rows : List R) (resync : Bool)
  | seed (rows : List R)
  | write (ws : List (Write R))
  | ready (label : String)
  /-- Close the reconciler alone. -/
  | closeDesk
  | close

/-- The immediate result of a command. -/
inductive CommandResult where
  | none
  | staged (s : Staged)
  | cancelled
  | refused (e : MutationError)
  | nothingStaged
  | existed (b : Bool)

/-- A session and the labels in use. -/
structure Script (R : Type) where
  session : Session R
  staged : List (String × Nat)
  running : List (Nat × String)
  waiting : List String
  listener : Listener
  /-- How many keys were made up so far. -/
  generated : Nat

namespace Replies

variable {R : Type}

/-- The answers of both, those of the first before those of the second. -/
def append (a b : Replies R) : Replies R :=
  ⟨a.submits ++ b.submits, a.reads ++ b.reads, a.snapshots ++ b.snapshots, a.batches ++ b.batches⟩

end Replies

namespace Script

variable {R : Type} [Row R]

def ofCollection (c : Collection R) : Script R :=
  ⟨⟨c, .empty⟩, [], [], [], c.store.channel.listen, 0⟩

def ofDesk (desk : Desk R) : Script R :=
  ofCollection
    { projectId := 0, desk, subscription := .create .default 0, feed := .stopped, status := .live
      ready := true, position := none }

def collection (s : Script R) : Collection R := s.session.collection

def desk (s : Script R) : Desk R := s.collection.desk

def store (s : Script R) : Store R := s.collection.store

def withCollection (s : Script R) (c : Collection R) : Script R :=
  { s with session := { s.session with collection := c } }

def withDesk (s : Script R) (d : Desk R) : Script R :=
  s.withCollection { s.collection with desk := d }

/-- Note one activity. A submission that ends gives its label free. -/
def noteOne (s : Script R) : Activity R → Script R × Notes R
  | .desk (.submit m) => (s, ⟨[.submit m], []⟩)
  | .desk (.fetchRow key) => (s, ⟨[.fetchRow key], []⟩)
  | .fetchSnapshot => (s, ⟨[.fetchSnapshot], []⟩)
  | .fetchBatch r => (s, ⟨[.fetchBatch r], []⟩)
  | .desk (.resolved id result) =>
    match s.running.find? (·.1 = id) with
    | none => (s, .none)
    | some (_, label) =>
      ({ s with running := s.running.filter (·.1 ≠ id) }, .ended label (.outcome result))

def note (s : Script R) : List (Activity R) → Script R × Notes R
  | [] => (s, .none)
  | act :: acts =>
    let (s, first) := s.noteOne act
    let (s, rest) := s.note acts
    (s, first.append rest)

/-- Note some activities, let everything happen that can, and note that too. -/
def settle (s : Script R) (acts : List (Activity R)) : Script R × Notes R :=
  let (s, first) := s.note acts
  let (session, acts) := s.session.settle
  let (s, rest) := { s with session }.note acts
  (s, first.append rest)

def settleDesk (s : Script R) (step : Desk R × List (Effect R)) : Script R × Notes R :=
  (s.withDesk step.1).settle (step.2.map .desk)

/-- Those who wait for the collection to be ready go on, if they can. -/
def release (s : Script R) : Script R × Notes R :=
  match s.collection.readiness with
  | none => (s, .none)
  | some r => ({ s with waiting := [] }, ⟨[], s.waiting.map fun label => (label, .ready r)⟩)

def events (s : Script R) : Script R × List (Channel.Received (Event R)) :=
  let channel := s.store.channel
  ({ s with listener := channel.listen }, channel.receive s.listener)

def stage (s : Script R) (naming : Nat → String) (m : Mutation R) :
    Except MutationError (Script R × Staging) := do
  let fresh := naming (s.generated + 1)
  let (d, staging) ← s.desk.stage fresh m
  let generated := match staging with
    | .staged t => if m.key ≠ t.key then s.generated + 1 else s.generated
    | .cancelled _ => s.generated
  return ({ s.withDesk d with generated }, staging)

def submit (s : Script R) (label : String) (id : Nat) : Script R × Notes R :=
  { s with running := s.running ++ [(id, label)] }.settleDesk (s.desk.submit id)

def perform (s : Script R) (naming : Nat → String) :
    Command R → Script R × CommandResult × Notes R
  | .stage label m =>
    match s.stage naming m with
    | .error e => (s, .refused e, .none)
    | .ok (s, .cancelled _) => (s, .cancelled, .none)
    | .ok (s, .staged t) =>
      let others := s.staged.filter (·.1 ≠ label)
      ({ s with staged := others ++ [(label, t.id)] }, .staged t, .none)
  | .submit label =>
    match s.staged.find? (·.1 = label) with
    | none => (s, .nothingStaged, .none)
    | some (_, id) =>
      let (s, notes) := { s with staged := s.staged.filter (·.1 ≠ label) }.submit label id
      (s, .none, notes)
  | .mutate label m =>
    match s.stage naming m with
    | .error e => (s, .none, .ended label (.outcome (.error e)))
    | .ok (s, .cancelled key) => (s, .none, .ended label (.outcome (.ok (.cancelled key))))
    | .ok (s, .staged t) =>
      let (s, notes) := s.submit label t.id
      (s, .none, notes)
  | .discard label =>
    match s.staged.find? (·.1 = label) with
    | none => (s, .existed false, .none)
    | some (_, id) =>
      ({ s with staged := s.staged.filter (·.1 ≠ label) }.withDesk (s.desk.discard id),
        .existed true, .none)
  | .abort label =>
    match s.running.find? (·.2 = label) with
    | some (id, _) =>
      ({ s with running := s.running.filter (·.1 ≠ id) }.withDesk (s.desk.abort id), .none,
        .ended label .aborted)
    | none =>
      if label ∈ s.waiting then
        ({ s with waiting := s.waiting.filter (· ≠ label) }, .none, .ended label .aborted)
      else (s, .none, .none)
  | .prepare q =>
    plain ({ s with session := { s.session with replies := s.session.replies.append q } }.settle [])
  | .advance ms => plain ((s.withDesk (s.desk.advance ms)).settle [])
  | .remote cs => plain (s.settleDesk (s.desk.remote cs))
  | .snapshot rows resync => plain (s.settleDesk (s.desk.snapshot rows resync))
  | .seed rows => (s.withDesk (s.desk.seed rows), .none, .none)
  | .write ws => (s.withDesk (s.desk.store ws), .none, .none)
  | .ready label => ({ s with waiting := s.waiting ++ [label] }, .none, .none)
  | .closeDesk => plain (s.settleDesk s.desk.close)
  | .close =>
    let (c, acts) := s.collection.close
    plain ((s.withCollection c).settle acts)
where
  plain (r : Script R × Notes R) : Script R × CommandResult × Notes R := (r.1, .none, r.2)

end Script
end FieldReplica
