import FieldReplica.Proofs.Confinement
import FieldReplica.Proofs.Roster

/-!
# A refused mutation leaves no trace

Whether a mutation is staged is decided by a list of hindrances, and the first one that is there says how staging
ends. As a program, staging looks at them one after the other and writes after the last look only: an error leaves
everything as it found it.
-/
namespace FieldReplica

variable {R : Type} [Row R]

/-- What may keep a mutation from being staged, in the order in which it is looked for. -/
inductive Hindrance where
  | unsupported
  | closed
  /-- An insertion that was not sent meets its removal. -/
  | cancellation
  | inFlight
  | alreadyExists
  | notFound
  | invalidPatch
deriving DecidableEq, Repr

namespace Hindrance

def all : List Hindrance :=
  [.unsupported,.closed,.cancellation,.inFlight,.alreadyExists,.notFound,.invalidPatch]

/-- How staging ends by a hindrance, if the hindrance is there. -/
def ending? (r : Reconciler R) (m : Mutation R) : Hindrance → Option (Except MutationError Staging)
  | unsupported =>
    if Row.isMutable R = false ∧ m.kind ≠ .insert then some (.error (.unsupported (Row.table R) m.kind)) else none
  | closed => if r.closed then some (.error .closed) else none
  | cancellation => (r.ledger.pending.find? m.key).bind fun p =>
    if m.kind = .delete ∧ p.mutation.kind = .insert ∧ p.isSubmitted = false then some (.ok (.cancelled m.key))
    else none
  | inFlight => (r.ledger.pending.find? m.key).map fun _ => .error (.inFlight m.key)
  | alreadyExists =>
    if m.kind = .insert ∧ (r.store.get? m.key).isSome then some (.error (.alreadyExists m.key)) else none
  | notFound => if m.kind ≠ .insert ∧ (r.store.get? m.key).isNone then some (.error (.notFound m.key)) else none
  | invalidPatch =>
    match m, r.store.get? m.key with
    | .update _ changes, some row =>
      match Row.applyChanges row changes with
      | .error e => some (.error (.invalidPatch e.message))
      | .ok _ => none
    | _, _ => none

end Hindrance

namespace Reconciler

/-- How staging a mutation ends: by the first hindrance that is there, and with a new record if there is none. -/
def ending (r : Reconciler R) (m : Mutation R) : Except MutationError Staging :=
  (Hindrance.all.findSome? (Hindrance.ending? r m)).getD (.ok (.staged ⟨r.nextId,m.key,m.kind⟩))

/-- Staging as a program on the reconciler. What it has written before an error stays. -/
def staging (fresh : String) (m : Mutation R) : EStateM MutationError (Reconciler R) Staging := do
  if !Row.isMutable R && m.kind ≠ .insert then throw (.unsupported (Row.table R) m.kind)
  else
    let m := withKey fresh m
    let key := m.key
    if (← get).closed then throw .closed
    else
      match (← get).ledger.pending.find? key with
      | some existing =>
        if cancels m existing then
          modify fun r => { r with ledger := r.ledger.remove key }
          modify fun r => r.write [.restore key existing.base]
          return .cancelled key
        else throw (.inFlight key)
      | none =>
        let current := (← get).store.get? key
        let w ← MonadExcept.ofExcept (optimistic m current)
        let id := (← get).nextId
        modify fun r => { r with nextId := r.nextId + 1 }
        modify fun r => { r with ledger := r.ledger.put key ⟨id,m,.staged,current⟩ }
        modify fun r => r.write [w]
        return .staged ⟨id,key,m.kind⟩

private theorem kind_withKey (fresh : String) (m : Mutation R) : (withKey fresh m).kind = m.kind := by
  cases m <;> rfl

/-- The program does what the function says, and leaves the reconciler alone when it fails. -/
theorem run_staging (r : Reconciler R) (fresh : String) (m : Mutation R) : (staging fresh m).run r =
    match r.stage fresh m with
    | .ok (r',st) => .ok st r'
    | .error e => .error e r := by
  rw [staging,stage]
  dsimp only
  by_cases hu : (!Row.isMutable R && decide (m.kind ≠ .insert)) = true
  · rw [if_pos hu,if_pos hu]
    rfl
  · rw [if_neg hu,if_neg hu]
    simp only [EStateM.run_bind,EStateM.run_get]
    by_cases hc : r.closed = true
    · rw [if_pos hc,if_pos hc]
      rfl
    · rw [if_neg hc,if_neg hc]
      cases hp : r.ledger.pending.find? (withKey fresh m).key with
      | some p =>
        by_cases hcancel : cancels (withKey fresh m) p = true
        · simp only [EStateM.run_bind,EStateM.run_get,hp,hcancel,if_true]
          rfl
        · simp only [EStateM.run_bind,EStateM.run_get,hp,hcancel]
          rfl
      | none =>
        cases ho : optimistic (withKey fresh m) (r.store.get? (withKey fresh m).key) with
        | error e =>
          simp only [EStateM.run_bind,EStateM.run_get,hp,ho]
          rfl
        | ok w =>
          simp only [EStateM.run_bind,EStateM.run_get,hp,ho]
          rfl

private theorem findSome?_optimistic (r : Reconciler R) (n : Mutation R) :
    [Hindrance.alreadyExists,.notFound,.invalidPatch].findSome? (Hindrance.ending? r n) =
      match optimistic n (r.store.get? n.key) with
      | .ok _ => none
      | .error e => some (.error e) := by
  simp only [List.findSome?_cons,List.findSome?_nil,Hindrance.ending?]
  cases n with
  | insert row =>
    cases hv : r.store.get? (Mutation.insert row).key <;> simp [optimistic,Mutation.kind,Mutation.key]
  | delete key =>
    cases hv : r.store.get? (Mutation.delete key : Mutation R).key <;>
      simp [optimistic,Mutation.kind,Mutation.key]
  | update key changes =>
    cases hv : r.store.get? (Mutation.update key changes : Mutation R).key with
    | none => simp [optimistic,Mutation.kind,Mutation.key]
    | some row => cases ha : Row.applyChanges row changes <;> simp [optimistic,Mutation.kind,ha]

private theorem result_stage (r : Reconciler R) (fresh : String) (m : Mutation R) :
    (r.stage fresh m).map (·.2) = r.ending (withKey fresh m) := by
  have hsplit : Hindrance.all = [.unsupported,.closed,.cancellation,.inFlight] ++
      [.alreadyExists,.notFound,.invalidPatch] := rfl
  rw [stage,ending,hsplit,List.findSome?_append,findSome?_optimistic,← kind_withKey fresh m]
  generalize withKey fresh m = n
  simp only [List.findSome?_cons,List.findSome?_nil,Hindrance.ending?]
  by_cases hu : Row.isMutable R = false ∧ n.kind ≠ .insert
  · simp [hu,Except.map]
  have hu' : (!Row.isMutable R && decide (n.kind ≠ .insert)) = false := by simpa using hu
  rw [if_neg hu,if_neg (ne_true_of_eq_false hu')]
  by_cases hc : r.closed = true
  · simp [hc,Except.map]
  rw [if_neg hc,if_neg hc]
  cases hp : r.ledger.pending.find? n.key with
  | some p =>
    have hcancel : cancels n p = true ↔
        n.kind = .delete ∧ p.mutation.kind = .insert ∧ p.isSubmitted = false := by
      simp [cancels,and_assoc]
    by_cases hcs : cancels n p = true
    · simp [hcs,hcancel.mp hcs,Except.map]
    · simp [hcs,mt hcancel.mpr hcs,Except.map]
  | none => cases optimistic n (r.store.get? n.key) <;> rfl

end Reconciler

namespace Desk

variable {d : Desk R}

/-- The desks that come about: from an empty one by actions, by writes that are made to the store directly, by
clearing it, and by reports. -/
inductive Reachable : Desk R → Prop where
  | created (capacity timeout : Nat) : Reachable (create capacity timeout)
  | acted {d : Desk R} (h : Reachable d) (a : Action R) : Reachable (d.step a)
  | written {d : Desk R} (h : Reachable d) (ws : List (Write R)) : Reachable (d.store ws)
  | cleared {d : Desk R} (h : Reachable d) :
    Reachable { d with reconciler := { d.reconciler with store := d.reconciler.store.clear } }
  | notified {d : Desk R} (h : Reachable d) (e : Event R) :
    Reachable { d with reconciler := d.reconciler.notify e }

theorem Reachable.filed (hd : d.Reachable) (key : String) : FiledUnder key (d.row? key) := by
  induction hd generalizing key with
  | created capacity timeout => exact filedUnder_none key
  | acted _ a ih => exact filed_rows_step ih a key
  | written _ ws ih => exact Store.filed_applyAll ih ws key
  | cleared _ _ => exact filedUnder_none key
  | notified _ e ih => exact ih key

private theorem Reachable.enrolled (hd : d.Reachable) : ∃ l, d.Enrolled l := by
  induction hd with
  | created capacity timeout => exact ⟨[],enrolled_create capacity timeout⟩
  | acted _ a ih =>
    obtain ⟨l,hl⟩ := ih
    exact ⟨_,enrolled_step hl a⟩
  -- The store has no part in the account.
  | written _ _ ih | cleared _ ih | notified _ _ ih =>
    obtain ⟨l,hl⟩ := ih
    exact ⟨l,hl.solo,hl.distinct,hl.known,hl.held,hl.flying,hl.recorded⟩

omit [Row R] in
/-- No record, no holder and no submission has a number. -/
structure Unused (d : Desk R) (id : Nat) : Prop where
  records : ∀ key p, d.record? key = some p → p.id ≠ id
  handles : ∀ s ∈ d.handles, s.id ≠ id
  flights : ∀ f ∈ d.flights, f.id ≠ id

theorem Reachable.unused (hd : d.Reachable) : d.Unused d.reconciler.nextId := by
  obtain ⟨l,hl⟩ := hd.enrolled
  refine ⟨?_,?_,?_⟩
  · intro key p hp
    exact Nat.ne_of_lt (hl.known _ (hl.mem_of_record hp).1)
  · intro s hs
    obtain ⟨m,hm,_⟩ := hl.held s hs
    exact Nat.ne_of_lt (hl.known _ hm)
  · intro f hf
    exact Nat.ne_of_lt (hl.known _ (hl.flying f.id f (find?_of_mem hl.solo hf)).1)

/-- What staging a mutation adds: one record, which is not sent yet and keeps the row that its key had, and the
mutation's outcome in that row. -/
structure Added (d : Desk R) (n : Mutation R) (s : Staged) (r' : Reconciler R) : Prop where
  vacant : d.record? n.key = none
  records : ∀ key, r'.ledger.pending.find? key =
    if key = n.key then some ⟨s.id,n,.staged,d.row? n.key⟩ else d.record? key
  rows : ∀ key, r'.store.get? key = if key = n.key then n.outcome? (d.row? n.key) else d.row? key
  unused : d.Unused s.id
  numbered : r'.nextId = s.id + 1
  untouched : r'.ledger.observed = d.reconciler.ledger.observed ∧ r'.closed = d.reconciler.closed

private theorem added_stage (hd : d.Reachable) {n : Mutation R} {w : Write R} (hvacant : d.record? n.key = none)
    (hw : Reconciler.optimistic n (d.row? n.key) = .ok w) :
    d.Added n ⟨d.reconciler.nextId,n.key,n.kind⟩ (({ d.reconciler with
      ledger := d.reconciler.ledger.put n.key ⟨d.reconciler.nextId,n,.staged,d.row? n.key⟩
      nextId := d.reconciler.nextId + 1 } : Reconciler R).write [w]) where
  vacant := hvacant
  records _ := Table.find?_insert_of _ _ _ _
  rows key := Write.find?_single (Reconciler.entry_optimistic (hd.filed n.key) hw) _ key
  unused := hd.unused
  numbered := rfl
  untouched := ⟨rfl,rfl⟩

private theorem act_stage_of_error {fresh : String} {m : Mutation R} {e : MutationError}
    (h : d.reconciler.stage fresh m = .error e) : d.act (.stage fresh m) = (d,[]) := by
  simp only [act,stage,h]
  rfl

private theorem act_stage_of_ok {fresh : String} {m : Mutation R} {r' : Reconciler R} {st : Staging} :
    d.reconciler.stage fresh m = .ok (r',st) → d.act (.stage fresh m) =
      ({ d with
        reconciler := r'
        handles := match st with
          | .staged s => d.handles ++ [s]
          | .cancelled _ => d.handles },[]) := by
  intro h
  simp only [act,stage,h]
  rfl

/-- The first hindrance that is there decides how staging ends. An error leaves everything as it was, wherever the
staging stopped, and nothing is sent; without a hindrance the mutation gets a record under a new number, and no row
but that of its key changes. -/
theorem staging_traceless (hd : d.Reachable) (fresh : String) (m : Mutation R) :
    let n := Reconciler.withKey fresh m
    let run := (Reconciler.staging fresh m).run d.reconciler
    (run = match d.reconciler.stage fresh m with
      | .ok (r',st) => .ok st r'
      | .error e => .error e d.reconciler) ∧
    match d.reconciler.ending n with
    | .error e => run = .error e d.reconciler ∧ d.act (.stage fresh m) = (d,[])
    | .ok (.cancelled key) => key = n.key ∧ ∃ p, d.record? key = some p ∧
      run = .ok (.cancelled key) (d.reconciler.retire key p.base) ∧
      d.act (.stage fresh m) = ({ d with reconciler := d.reconciler.retire key p.base },[])
    | .ok (.staged s) => s = ⟨d.reconciler.nextId,n.key,n.kind⟩ ∧ ∃ r', run = .ok (.staged s) r' ∧
      d.Added n s r' ∧
      d.act (.stage fresh m) = ({ d with reconciler := r', handles := d.handles ++ [s] },[]) := by
  intro n run
  have hrun := Reconciler.run_staging d.reconciler fresh m
  refine ⟨hrun,?_⟩
  rw [← Reconciler.result_stage]
  cases hs : d.reconciler.stage fresh m with
  | error e =>
    rw [hs] at hrun
    exact ⟨hrun,act_stage_of_error hs⟩
  | ok x =>
    obtain ⟨r',st⟩ := x
    rw [hs] at hrun
    have hact := act_stage_of_ok hs
    obtain ⟨_,⟨p,hp,_,rfl,rfl⟩ | ⟨w,hp,hw,rfl,rfl⟩⟩ := Reconciler.stage_eq_ok (n := n) rfl hs
    · exact ⟨rfl,p,hp,hrun,hact⟩
    · exact ⟨rfl,_,hrun,added_stage hd hp hw,hact⟩

/-- One feature that the stream has brought, and one that was put into the store. -/
def twoFeatures : Desk Entity :=
  ((create 8 30000).step (.remote [⟨"E1",some (.inState "E1" .ready),[⟨40⟩]⟩])).store
    [.upsert (.inState "E2" .ready)]

/-- An update of a column that features do not have. -/
def colouring : Mutation Entity := .update "E1" (.ofList [("colour",.string "red")])

/-- The update of an unknown column is refused and leaves no trace, and the next mutation gets the first number. -/
theorem staging_traceless_unknownColumn :
    (Reconciler.staging "" colouring).run twoFeatures.reconciler =
        .error (.invalidPatch "unknown column colour") twoFeatures.reconciler ∧
      twoFeatures.act (.stage "" colouring) = (twoFeatures,[]) ∧
      ∃ r', (Reconciler.staging "" (Entity.setStatus "E2" .validated)).run twoFeatures.reconciler =
          .ok (.staged ⟨1,"E2",.update⟩) r' ∧
        twoFeatures.Added (Entity.setStatus "E2" .validated) ⟨1,"E2",.update⟩ r' := by
  have hd : twoFeatures.Reachable := .written (.acted (.created 8 30000) _) _
  have hrefused : twoFeatures.reconciler.ending (Reconciler.withKey "" colouring) =
      .error (.invalidPatch "unknown column colour") := by
    decide +kernel
  have hstaged : twoFeatures.reconciler.ending (Reconciler.withKey "" (Entity.setStatus "E2" .validated)) =
      .ok (.staged ⟨1,"E2",.update⟩) := by
    decide +kernel
  have h := (staging_traceless hd "" colouring).2
  have h' := (staging_traceless hd "" (Entity.setStatus "E2" .validated)).2
  rw [hrefused] at h
  rw [hstaged] at h'
  obtain ⟨_,r',hrun,hadded,_⟩ := h'
  exact ⟨h.1,h.2,r',hrun,hadded⟩

end Desk
end FieldReplica
