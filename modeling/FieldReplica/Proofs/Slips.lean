import FieldReplica.Proofs.Reconciler
import Mathlib.Logic.Function.Basic

/-!
# The records in their parts

A record of a pending mutation as it is kept: its state, whether it was sent, its transaction and the near end of
the line on which the confirmation is told are parts of their own, which are set at different times and read
together. A board has such records, called slips here. Whatever is done to a board leaves the parts of its slips
in agreement (`Board.Sound`), and a board whose slips agree does what the reconciler does that it is a view of
(`Board.reconciler`).
-/
namespace FieldReplica

/-- Where a mutation is, as its slip says it. -/
inductive SlipState where
  | applied
  | awaitingConfirmation
  | confirmed
  | rolledBack
deriving DecidableEq, Repr

/-- What is heard at the far end of a line that carries one word. -/
inductive Line where
  | silent
  | said (txid : Txid)
  /-- The near end is gone, and nothing was said. -/
  | cut
deriving DecidableEq, Repr

/-- The record of a pending mutation in its parts. -/
structure Slip (R : Type) where
  id : Nat
  mutation : Mutation R
  state : SlipState
  submitted : Bool
  /-- The last value that the server gave for the key. -/
  base : Option R
  txid : Option Txid
  /-- Whether the slip has the near end of its line, on which nothing was said yet. -/
  sender : Bool
deriving DecidableEq

/-- A store with the slips of the mutations that are pending on it, by key, and the lines by the slips'
ids. -/
structure Board (R : Type) where
  store : Store R
  slips : Table String (Slip R)
  observed : ObservedTxids
  nextId : Nat
  closed : Bool
  lines : Nat → Line

variable {R : Type}

/-- How far the mutation of a slip has come. -/
def Slip.pending (s : Slip R) : Pending R where
  id := s.id
  mutation := s.mutation
  progress := match s.txid with
    | some t => .awaiting t
    | none => if s.submitted then .submitted else .staged
  base := s.base

namespace Board

variable [Row R]

/-- A board without slips over a store. -/
def create (store : Store R) : Board R :=
  ⟨store,.empty,.create Reconciler.observedCapacity,1,false,fun _ => .cut⟩

/-- The slip of a key, if it is that of the mutation `id`. -/
def find? (b : Board R) (key : String) (id : Nat) : Option (Slip R) :=
  (b.slips.find? key).filter (·.id = id)

def put (b : Board R) (key : String) (s : Slip R) : Board R := { b with slips := b.slips.insert key s }

def remove (b : Board R) (key : String) : Board R := { b with slips := b.slips.erase key }

def write (b : Board R) (ws : List (Write R)) : Board R := { b with store := b.store.write ws }

def notify (b : Board R) (e : Event R) : Board R := { b with store := b.store.notify e }

def announce (b : Board R) (cs : List Confirmation) : Board R :=
  { b with store := b.store.notifyAll (cs.map fun c => .confirmed c.key c.txid) }

def setLine (b : Board R) (id : Nat) (l : Line) : Board R :=
  { b with lines := Function.update b.lines id l }

/-- A slip that was taken off goes, and with it the near end of its line if it still has that. -/
def drop (b : Board R) (s : Slip R) : Board R := if s.sender then b.setLine s.id .cut else b

/-- Retire a slip as confirmed: who waits for it is told, and the slip goes. -/
def confirm (b : Board R) (s : Slip R) (t : Txid) : Board R :=
  let told := if s.sender then b.setLine s.id (.said t) else b
  told.drop { s with state := .confirmed, sender := false }

/-! ### Local writes -/

def stage (b : Board R) (fresh : String) (m : Mutation R) :
    Except MutationError (Board R × Staging) :=
  if !Row.isMutable R && m.kind ≠ .insert then .error (.unsupported (Row.table R) m.kind)
  else
    let m := Reconciler.withKey fresh m
    if b.closed then .error .closed
    else
      match b.slips.find? m.key with
      | some s =>
        if m.kind = .delete && s.mutation.kind = .insert && !s.submitted then
          .ok (((b.remove m.key).write [.restore m.key s.base]).drop s,.cancelled m.key)
        else .error (.inFlight m.key)
      | none =>
        let current := b.store.get? m.key
        match Reconciler.optimistic m current with
        | .error e => .error e
        | .ok w =>
          let numbered := ({ b with nextId := b.nextId + 1 } : Board R).setLine b.nextId .silent
          .ok ((numbered.put m.key ⟨b.nextId,m,.applied,false,current,none,true⟩).write [w],
            .staged ⟨b.nextId,m.key,m.kind⟩)

def beginSubmit (b : Board R) (h : Staged) : Except MutationError (Board R × Sending R) :=
  match b.find? h.key h.id with
  | some s => .ok (b.put h.key { s with submitted := true },.send s.mutation)
  | none => if b.closed then .error .closed else .ok (b,.cancelled)

def rollBack (b : Board R) (key : String) (id : Nat) (e : MutationError) : Board R :=
  match b.find? key id with
  | some s =>
    (((b.remove key).write [.restore key s.base]).notify (.rolledBack key e.message)).drop
      { s with state := .rolledBack }
  | none => b

def awaitTxid (b : Board R) (key : String) (id : Nat) (t : Txid) : Except MutationError (Board R × Bool) :=
  match b.find? key id with
  | none => .error .closed
  | some s =>
    let answered := { s with txid := some t, state := .awaitingConfirmation }
    if b.observed.contains key t then
      .ok ((((b.remove key).confirm answered t).write [.restore key s.base]).notify (.confirmed key t),true)
    else .ok (b.put key answered,false)

def settle (b : Board R) (key : String) (id : Nat) (t : Txid) (m : Mutation R)
    (canonical : Except AdapterError (Option R)) : Board R × Except MutationError Outcome :=
  match b.find? key id with
  | none => (b,.error .closed)
  | some s =>
    let lost (value : Option R) : Board R × Except MutationError Outcome :=
      let e := MutationError.lost key t
      ((((b.remove key).write [.restore key value]).notify (.rolledBack key e.message)).drop
        { s with state := .rolledBack },.error e)
    match canonical with
    | .ok server =>
      if m.isReflectedBy server then
        ((((b.remove key).confirm { s with base := server } t).write [.restore key server]).notify
          (.confirmed key t),.ok (.confirmed key t))
      else lost server
    | .error _ => lost s.base

/-! ### The stream -/

/-- A board after something that writes and confirms, with what it writes and confirms. -/
structure Takings (R : Type) where
  board : Board R
  writes : List (Write R)
  confirmed : List Confirmation

/-- One thing after another. -/
def fold {α : Type} (f : Board R → α → Takings R) (b : Board R) : List α → Takings R
  | [] => ⟨b,[],[]⟩
  | a::as =>
    let first := f b a
    let rest := fold f first.board as
    ⟨rest.board,first.writes ++ rest.writes,first.confirmed ++ rest.confirmed⟩

/-- Take in one remote change. -/
def receive (b : Board R) (c : RemoteChange R) : Takings R :=
  match b.slips.find? c.key with
  | none => ⟨b,[.restore c.key c.row],[]⟩
  | some s =>
    let rebased := { s with base := c.row }
    match rebased.txid.filter (· ∈ c.txids) with
    | some t => ⟨(b.remove c.key).confirm rebased t,[.restore c.key rebased.base],[⟨s.id,c.key,t⟩]⟩
    | none =>
      ⟨{ b.put c.key rebased with observed := b.observed.recordAll c.key c.txids },[],[]⟩

def applyRemote (b : Board R) (cs : List (RemoteChange R)) : Board R × List Confirmation :=
  let taken := b.fold receive cs
  ((taken.board.write taken.writes).announce taken.confirmed,taken.confirmed)

/-- Hold the slip of a key against a full image. A slip that the image shows comes off, and is confirmed if it
has a transaction. -/
def reflect (image : Table String R) (b : Board R) (key : String) : Takings R :=
  match b.slips.find? key with
  | none => ⟨b,[],[]⟩
  | some s =>
    let rebased := { s with base := image.find? key }
    if rebased.state = .awaitingConfirmation && rebased.mutation.isReflectedBy rebased.base then
      match rebased.txid with
      | some t => ⟨(b.remove key).confirm rebased t,[.restore key rebased.base],[⟨s.id,key,t⟩]⟩
      | none => ⟨(b.remove key).drop rebased,[],[]⟩
    else ⟨b.put key rebased,[],[]⟩

def applySnapshot (b : Board R) (rows : List R) (resync : Bool) : Board R × List Confirmation :=
  let image : Table String R := .ofList (rows.map fun row => (Row.key row,row))
  let removals := (b.store.keys.filter fun key => !image.contains key && !b.slips.contains key).map .delete
  let taken := b.fold (reflect image) b.slips.keys
  let upserts :=
    (image.entries.filter fun e => !taken.board.slips.contains e.1).map fun e => Write.upsert e.2
  let written := taken.board.write (removals ++ taken.writes ++ upserts)
  let noted := if resync then written.notify (.resynced image.size) else written
  (noted.announce taken.confirmed,taken.confirmed)

def seed (b : Board R) (rows : List R) : Board R :=
  b.write ((rows.filter fun row => !b.slips.contains (Row.key row)).map .upsert)

/-- Take no more mutations, and let all slips go. -/
def close (b : Board R) : Board R := b.slips.values.foldl drop { b with slips := .empty, closed := true }

/-! ### The reconciler that a board is -/

/-- The board with each slip read as how far its mutation has come. -/
def reconciler (b : Board R) : Reconciler R where
  store := b.store
  ledger := ⟨b.slips.map fun _ s => s.pending,b.observed⟩
  nextId := b.nextId
  closed := b.closed

end Board

/-! ### Agreement -/

/-- The parts of a slip agree. -/
structure Slip.Linked (s : Slip R) : Prop where
  state : s.state = .applied ∨ s.state = .awaitingConfirmation
  awaiting : s.state = .awaitingConfirmation ↔ s.txid.isSome
  sent : s.state = .awaitingConfirmation → s.submitted
  sender : s.sender

namespace Board

/-- The slips of a board agree with each other, with their lines, and with whether the board is closed. -/
structure Sound [Row R] (b : Board R) : Prop where
  filed : ∀ key s, b.slips.find? key = some s → s.mutation.key = key
  linked : ∀ key s, b.slips.find? key = some s → s.Linked
  unused : ∀ key s, b.slips.find? key = some s → b.lines s.id = .silent
  known : ∀ key s, b.slips.find? key = some s → s.id < b.nextId
  unique : ∀ key s key' s', b.slips.find? key = some s → b.slips.find? key' = some s' → s.id = s'.id →
    key = key'
  empty : b.closed = true → b.slips = .empty
  heard : ∀ id, b.lines id = .silent → ∃ key s, b.slips.find? key = some s ∧ s.id = id

variable {b b' : Board R} {key : String} {s : Slip R}

theorem drop_eq (hs : s.sender = true) : b.drop s = b.setLine s.id .cut := if_pos hs

theorem confirm_eq (hs : s.sender = true) (t : Txid) : b.confirm s t = b.setLine s.id (.said t) := by
  rw [confirm,if_pos hs]
  rfl

theorem find?_eq_some {id : Nat} : b.find? key id = some s ↔ b.slips.find? key = some s ∧ s.id = id := by
  rw [find?,Option.filter_eq_some_iff]
  simp

/-! ### What keeps agreement -/

section
variable [Row R]

theorem sound_create (store : Store R) : (create store).Sound where
  filed _ _ h := by cases h
  linked _ _ h := by cases h
  unused _ _ h := by cases h
  known _ _ h := by cases h
  unique _ _ _ _ h := by cases h
  empty _ := rfl
  heard _ h := by cases h

/-- Agreement does not depend on what the store shows and on what was observed. -/
theorem Sound.congr (h : b.Sound) (hs : b'.slips = b.slips) (hl : b'.lines = b.lines)
    (hn : b'.nextId = b.nextId) (hc : b'.closed = b.closed) : b'.Sound := by
  constructor <;> simp only [hs,hl,hn,hc]
  exacts [h.filed,h.linked,h.unused,h.known,h.unique,h.empty,h.heard]

/-- A slip gets new parts that agree. -/
theorem Sound.put (h : b.Sound) (hs : b.slips.find? key = some s) {s' : Slip R} (hid : s'.id = s.id)
    (hm : s'.mutation = s.mutation) (hl : s'.Linked) : (b.put key s').Sound := by
  -- every slip there is now was there before, with the same id and the same mutation
  have hold : ∀ k q, (b.put key s').slips.find? k = some q →
      q.Linked ∧ ∃ p, b.slips.find? k = some p ∧ q.id = p.id ∧ q.mutation = p.mutation := by
    intro k q hq
    by_cases hk : k = key
    · subst hk
      rw [Board.put,Table.find?_insert_self] at hq
      obtain rfl := Option.some.inj hq
      exact ⟨hl,s,hs,hid,hm⟩
    · rw [Board.put,Table.find?_insert_ne _ _ hk] at hq
      exact ⟨h.linked k q hq,q,hq,rfl,rfl⟩
  refine ⟨fun k q hq => ?_,fun k q hq => (hold k q hq).1,fun k q hq => ?_,fun k q hq => ?_,
    fun k q k' q' hq hq' he => ?_,fun hc => ?_,fun id hi => ?_⟩
  · obtain ⟨_,p,hp,_,hpm⟩ := hold k q hq
    rw [hpm]
    exact h.filed k p hp
  · obtain ⟨_,p,hp,hpi,_⟩ := hold k q hq
    rw [hpi]
    exact h.unused k p hp
  · obtain ⟨_,p,hp,hpi,_⟩ := hold k q hq
    rw [hpi]
    exact h.known k p hp
  · obtain ⟨_,p,hp,hpi,_⟩ := hold k q hq
    obtain ⟨_,p',hp',hpi',_⟩ := hold k' q' hq'
    exact h.unique k p k' p' hp hp' (by rw [← hpi,← hpi',he])
  · rw [h.empty hc] at hs
    cases hs
  · obtain ⟨k,p,hp,hpi⟩ := h.heard id hi
    by_cases hk : k = key
    · subst hk
      obtain rfl := Option.some.inj (hs.symm.trans hp)
      exact ⟨k,s',Table.find?_insert_self _ _ _,hid.trans hpi⟩
    · exact ⟨k,p,(Table.find?_insert_ne _ _ hk).trans hp,hpi⟩

/-- A slip comes off, and something becomes of its line. -/
theorem Sound.off (h : b.Sound) (hs : b.slips.find? key = some s) {l : Line} (hl : l ≠ .silent) :
    ((b.remove key).setLine s.id l).Sound := by
  have hold : ∀ k q, (b.slips.erase key).find? k = some q → k ≠ key ∧ b.slips.find? k = some q := by
    intro k q hq
    rw [Table.find?_erase_of] at hq
    split at hq
    · cases hq
    · next hk => exact ⟨hk,hq⟩
  refine ⟨fun k q hq => h.filed k q (hold k q hq).2,fun k q hq => h.linked k q (hold k q hq).2,
    fun k q hq => ?_,fun k q hq => h.known k q (hold k q hq).2,
    fun k q k' q' hq hq' => h.unique k q k' q' (hold k q hq).2 (hold k' q' hq').2,fun hc => ?_,
    fun id hi => ?_⟩
  · obtain ⟨hk,hq⟩ := hold k q hq
    have hne : q.id ≠ s.id := fun he => hk (h.unique k q key s hq hs he)
    exact (Function.update_of_ne hne _ _).trans (h.unused k q hq)
  · rw [h.empty hc] at hs
    cases hs
  · by_cases he : id = s.id
    · subst he
      exact absurd ((Function.update_self _ _ _).symm.trans hi) hl
    · obtain ⟨k,q,hq,rfl⟩ := h.heard id ((Function.update_of_ne he _ _).symm.trans hi)
      refine ⟨k,q,?_,rfl⟩
      have hk : k ≠ key := by
        rintro rfl
        exact he (congrArg Slip.id (Option.some.inj (hq.symm.trans hs)))
      exact (Table.find?_erase_ne _ hk).trans hq

/-- A new slip goes under a free key. -/
theorem Sound.add (h : b.Sound) (hopen : b.closed = false) {m : Mutation R}
    (hs : b.slips.find? m.key = none) (v : Option R) :
    ((({ b with nextId := b.nextId + 1 } : Board R).setLine b.nextId .silent).put m.key
      ⟨b.nextId,m,.applied,false,v,none,true⟩).Sound := by
  have hold : ∀ k q, (b.slips.insert m.key ⟨b.nextId,m,.applied,false,v,none,true⟩).find? k = some q →
      (k = m.key ∧ q = ⟨b.nextId,m,.applied,false,v,none,true⟩) ∨
        (b.slips.find? k = some q ∧ q.id ≠ b.nextId) := by
    intro k q hq
    rw [Table.find?_insert_of] at hq
    split at hq
    · next hk => exact .inl ⟨hk,(Option.some.inj hq).symm⟩
    · exact .inr ⟨hq,Nat.ne_of_lt (h.known k q hq)⟩
  refine ⟨fun k q hq => ?_,fun k q hq => ?_,fun k q hq => ?_,fun k q hq => ?_,
    fun k q k' q' hq hq' he => ?_,fun hc => ?_,fun id hi => ?_⟩
  · rcases hold k q hq with ⟨rfl,rfl⟩ | ⟨hq,_⟩
    · rfl
    · exact h.filed k q hq
  · rcases hold k q hq with ⟨rfl,rfl⟩ | ⟨hq,_⟩
    · exact ⟨.inl rfl,by simp,by simp,rfl⟩
    · exact h.linked k q hq
  · rcases hold k q hq with ⟨rfl,rfl⟩ | ⟨hq,hne⟩
    · exact Function.update_self _ _ _
    · exact (Function.update_of_ne hne _ _).trans (h.unused k q hq)
  · rcases hold k q hq with ⟨rfl,rfl⟩ | ⟨hq,_⟩
    · exact Nat.lt_succ_self _
    · exact Nat.lt_succ_of_lt (h.known k q hq)
  · rcases hold k q hq with ⟨rfl,rfl⟩ | ⟨hq,hne⟩
    · rcases hold k' q' hq' with ⟨rfl,rfl⟩ | ⟨_,hne'⟩
      · rfl
      · exact absurd he.symm hne'
    · rcases hold k' q' hq' with ⟨rfl,rfl⟩ | ⟨hq',_⟩
      · exact absurd he hne
      · exact h.unique k q k' q' hq hq' he
  · rw [show b.closed = true from hc] at hopen
    cases hopen
  · by_cases he : id = b.nextId
    · exact ⟨m.key,_,Table.find?_insert_self _ _ _,he.symm⟩
    · obtain ⟨k,q,hq,hqi⟩ := h.heard id ((Function.update_of_ne he _ _).symm.trans hi)
      have hk : k ≠ m.key := by
        rintro rfl
        cases hs.symm.trans hq
      exact ⟨k,q,(Table.find?_insert_ne _ _ hk).trans hq,hqi⟩

omit [Row R] in
/-- Slips that go take their lines with them, and nothing else. -/
theorem foldl_drop (l : List (Slip R)) (hl : ∀ s ∈ l, s.sender = true) (b : Board R) :
    l.foldl drop b = { b with lines := fun i => if ∃ s ∈ l, s.id = i then .cut else b.lines i } := by
  induction l generalizing b with
  | nil => simp
  | cons s l ih =>
    rw [List.foldl_cons,drop_eq (hl s List.mem_cons_self),ih fun q hq => hl q (List.mem_cons_of_mem _ hq)]
    simp only [setLine,Board.mk.injEq,true_and]
    funext i
    by_cases hi : i = s.id
    · subst hi
      simp
    · simp [Function.update_of_ne hi,Ne.symm hi]

theorem Sound.close_eq (h : b.Sound) : b.close = { b with
    slips := .empty
    closed := true
    lines := fun i => if ∃ s ∈ b.slips.values, s.id = i then .cut else b.lines i } := by
  refine foldl_drop _ (fun s hs => ?_) _
  obtain ⟨⟨k,q⟩,hq,rfl⟩ := List.mem_map.mp hs
  exact (h.linked k q (Table.mem_entries.mp hq)).sender

/-- Closing cuts every line on which something could still be said. -/
theorem Sound.lines_close (h : b.Sound) (i : Nat) :
    b.close.lines i = if b.lines i = .silent then .cut else b.lines i := by
  rw [h.close_eq]
  refine if_congr ⟨fun hs => ?_,fun hi => ?_⟩ rfl rfl
  · obtain ⟨s,hs,rfl⟩ := hs
    obtain ⟨⟨k,q⟩,hq,rfl⟩ := List.mem_map.mp hs
    exact h.unused k q (Table.mem_entries.mp hq)
  · obtain ⟨k,q,hq,hqi⟩ := h.heard i hi
    exact ⟨q,List.mem_map.mpr ⟨(k,q),Table.mem_entries.mpr hq,rfl⟩,hqi⟩

theorem Sound.close (h : b.Sound) : b.close.Sound := by
  have hempty : b.close.slips = .empty := by rw [h.close_eq]
  have hnone : ∀ k, b.close.slips.find? k = none := fun k => by rw [hempty,Table.find?_empty]
  constructor
  case empty => exact fun _ => hempty
  case heard =>
    intro i hi
    rw [h.lines_close] at hi
    split at hi
    · cases hi
    · next hne => exact absurd hi hne
  all_goals
    intro k q
    rw [hnone]
    nofun

/-! ### What operations on one slip come to -/

theorem Sound.sender (h : b.Sound) {id : Nat} (hs : b.find? key id = some s) : s.sender = true :=
  (h.linked key s (find?_eq_some.mp hs).1).sender

theorem Sound.rollBack_eq (h : b.Sound) {id : Nat} (hs : b.find? key id = some s) (e : MutationError) :
    b.rollBack key id e = (((b.remove key).setLine s.id .cut).write [.restore key s.base]).notify
      (.rolledBack key e.message) := by
  have hsender := h.sender hs
  rw [rollBack,hs]
  exact drop_eq (s := { s with state := .rolledBack }) hsender

theorem Sound.awaitTxid_eq (h : b.Sound) {id : Nat} (hs : b.find? key id = some s) (t : Txid) :
    b.awaitTxid key id t =
      if b.observed.contains key t then
        .ok ((((b.remove key).setLine s.id (.said t)).write [.restore key s.base]).notify (.confirmed key t),
          true)
      else .ok (b.put key { s with txid := some t, state := .awaitingConfirmation },false) := by
  have hsender := h.sender hs
  simp only [awaitTxid,hs,
    confirm_eq (s := { s with txid := some t, state := .awaitingConfirmation }) hsender]

theorem Sound.settle_eq (h : b.Sound) {id : Nat} (hs : b.find? key id = some s) (t : Txid)
    (m : Mutation R) (answer : Except AdapterError (Option R)) : ∃ l, l ≠ .silent ∧
    b.settle key id t m answer = ((((b.remove key).setLine s.id l).write
        [.restore key (Reconciler.settledValue s.pending answer)]).notify
        (Reconciler.Verdict.event key t (Reconciler.verdict key t m answer)),
      Reconciler.verdict key t m answer) := by
  have hsender := h.sender hs
  rw [settle,hs]
  cases answer with
  | error e =>
    refine ⟨.cut,by simp,?_⟩
    simp only [drop_eq (s := { s with state := .rolledBack }) hsender]
    rfl
  | ok server =>
    simp only [Reconciler.settledValue,Reconciler.verdict]
    split
    · refine ⟨.said t,by simp,?_⟩
      simp only [confirm_eq (s := { s with base := server }) hsender]
      rfl
    · refine ⟨.cut,by simp,?_⟩
      simp only [drop_eq (s := { s with state := .rolledBack }) hsender]
      rfl

/-- An operation that concerns the slip of one mutation. -/
structure Touches (id : Nat) (b b' : Board R) : Prop where
  sound : b'.Sound
  next : b'.nextId = b.nextId
  closed : b'.closed = b.closed
  line : ∀ i, i ≠ id → b'.lines i = b.lines i
  other : ∀ k q, b'.slips.find? k = some q → q.id ≠ id → b.slips.find? k = some q
  own : ∀ k q, b'.slips.find? k = some q → q.id = id →
    ∃ p, b.slips.find? k = some p ∧ p.id = id ∧ (p.submitted = true → q.submitted = true)

theorem Sound.touches_refl (h : b.Sound) (id : Nat) : Touches id b b :=
  ⟨h,rfl,rfl,fun _ _ => rfl,fun _ _ hq _ => hq,fun _ q hq hi => ⟨q,hq,hi,fun hb => hb⟩⟩

theorem Touches.congr {id : Nat} {b'' : Board R} (h : Touches id b b') (hs : b''.slips = b'.slips)
    (hl : b''.lines = b'.lines) (hn : b''.nextId = b'.nextId) (hc : b''.closed = b'.closed) :
    Touches id b b'' := by
  refine ⟨h.sound.congr hs hl hn hc,hn.trans h.next,hc.trans h.closed,?_,?_,?_⟩
  · rw [hl]
    exact h.line
  · rw [hs]
    exact h.other
  · rw [hs]
    exact h.own

private theorem Sound.touches_put (h : b.Sound) (hs : b.slips.find? key = some s) {s' : Slip R}
    (hid : s'.id = s.id) (hm : s'.mutation = s.mutation) (hl : s'.Linked)
    (hsent : s.submitted = true → s'.submitted = true) : Touches s.id b (b.put key s') := by
  refine ⟨h.put hs hid hm hl,rfl,rfl,fun _ _ => rfl,fun k q hq hne => ?_,fun k q hq hi => ?_⟩
  all_goals rw [Board.put,Table.find?_insert_of] at hq; split at hq
  · obtain rfl := Option.some.inj hq
    exact absurd hid hne
  · exact hq
  · next hk =>
    subst hk
    obtain rfl := Option.some.inj hq
    exact ⟨s,hs,rfl,hsent⟩
  · exact ⟨q,hq,hi,fun hb => hb⟩

private theorem Sound.touches_off (h : b.Sound) (hs : b.slips.find? key = some s) {l : Line}
    (hl : l ≠ .silent) : Touches s.id b ((b.remove key).setLine s.id l) := by
  have hold : ∀ k q, (b.slips.erase key).find? k = some q → b.slips.find? k = some q := by
    intro k q hq
    rw [Table.find?_erase_of] at hq
    split at hq
    · cases hq
    · exact hq
  exact ⟨h.off hs hl,rfl,rfl,fun i hi => Function.update_of_ne hi _ _,fun k q hq _ => hold k q hq,
    fun k q hq hi => ⟨q,hold k q hq,hi,fun hb => hb⟩⟩

theorem Sound.touches_rollBack (h : b.Sound) (key : String) (id : Nat) (e : MutationError) :
    Touches id b (b.rollBack key id e) := by
  cases hs : b.find? key id with
  | none =>
    have heq : b.rollBack key id e = b := by rw [rollBack,hs]
    rw [heq]
    exact h.touches_refl id
  | some s =>
    rw [h.rollBack_eq hs]
    obtain ⟨hfound,rfl⟩ := find?_eq_some.mp hs
    exact (h.touches_off hfound (l := .cut) nofun).congr rfl rfl rfl rfl

theorem Sound.touches_settle (h : b.Sound) (key : String) (id : Nat) (t : Txid) (m : Mutation R)
    (answer : Except AdapterError (Option R)) : Touches id b (b.settle key id t m answer).1 := by
  cases hs : b.find? key id with
  | none =>
    have heq : b.settle key id t m answer = (b,.error .closed) := by rw [settle,hs]
    rw [heq]
    exact h.touches_refl id
  | some s =>
    obtain ⟨l,hl,heq⟩ := h.settle_eq hs t m answer
    rw [heq]
    obtain ⟨hfound,rfl⟩ := find?_eq_some.mp hs
    exact (h.touches_off hfound hl).congr rfl rfl rfl rfl

/-- The server answers a mutation that was sent. -/
theorem Sound.touches_awaitTxid (h : b.Sound) {id : Nat} {t : Txid} {seen : Bool}
    (hsent : ∀ k s, b.slips.find? k = some s → s.id = id → s.submitted = true)
    (ha : b.awaitTxid key id t = .ok (b',seen)) :
    Touches id b b' ∧ (seen = false → b'.lines = b.lines ∧ ∃ s, b.find? key id = some s) := by
  cases hs : b.find? key id with
  | none =>
    rw [awaitTxid,hs] at ha
    cases ha
  | some s =>
    rw [h.awaitTxid_eq hs] at ha
    obtain ⟨hfound,rfl⟩ := find?_eq_some.mp hs
    have hl := h.linked key s hfound
    split at ha
    all_goals obtain ⟨rfl,rfl⟩ := Prod.mk.inj (Except.ok.inj ha)
    · exact ⟨(h.touches_off hfound (l := .said t) nofun).congr rfl rfl rfl rfl,nofun⟩
    · refine ⟨?_,fun _ => ⟨rfl,s,rfl⟩⟩
      exact h.touches_put hfound rfl rfl
        ⟨.inr rfl,by simp,fun _ => hsent key s hfound rfl,hl.sender⟩ fun hb => hb

/-- A mutation that is sent is marked so. -/
theorem Sound.touches_beginSubmit (h : b.Sound) {g : Staged} {m : Mutation R}
    (hb : b.beginSubmit g = .ok (b',.send m)) : Touches g.id b b' ∧
      (∀ k s, b'.slips.find? k = some s → s.id = g.id → s.submitted = true) ∧ b'.lines = b.lines ∧
      ∃ s, b.find? g.key g.id = some s := by
  rw [beginSubmit] at hb
  split at hb
  · next s hs =>
    obtain ⟨rfl,_⟩ := Prod.mk.inj (Except.ok.inj hb)
    obtain ⟨hfound,hid⟩ := find?_eq_some.mp hs
    have hl := h.linked g.key s hfound
    refine ⟨?_,fun k q hq hi => ?_,rfl,s,hs⟩
    · rw [← hid]
      exact h.touches_put hfound rfl rfl ⟨hl.state,hl.awaiting,fun _ => rfl,hl.sender⟩ fun _ => rfl
    · rw [Board.put,Table.find?_insert_of] at hq
      split at hq
      · obtain rfl := Option.some.inj hq
        rfl
      · next hk => exact absurd (h.unique k q g.key s hq hfound (hi.trans hid.symm)) hk
  · split at hb <;> cases hb

/-- A new slip is on the board, under a number that was free. -/
structure Adds (b b' : Board R) : Prop where
  sound : b'.Sound
  next : b'.nextId = b.nextId + 1
  closed : b'.closed = b.closed
  line : ∀ i, i ≠ b.nextId → b'.lines i = b.lines i
  slip : ∀ k q, b'.slips.find? k = some q →
    (q.id = b.nextId ∧ q.submitted = false) ∨ b.slips.find? k = some q

private theorem Sound.adds (h : b.Sound) (hopen : b.closed = false) {m : Mutation R}
    (hs : b.slips.find? m.key = none) (v : Option R) (w : Write R) :
    Adds b (((({ b with nextId := b.nextId + 1 } : Board R).setLine b.nextId .silent).put m.key
      ⟨b.nextId,m,.applied,false,v,none,true⟩).write [w]) := by
  refine ⟨(h.add hopen hs v).congr rfl rfl rfl rfl,rfl,rfl,fun i hi => Function.update_of_ne hi _ _,
    fun k q hq => ?_⟩
  have hq : (b.slips.insert m.key ⟨b.nextId,m,.applied,false,v,none,true⟩).find? k = some q := hq
  rw [Table.find?_insert_of] at hq
  split at hq
  · obtain rfl := Option.some.inj hq
    exact .inl ⟨rfl,rfl⟩
  · exact .inr hq

/-- Staging takes back an insertion that was not sent, or adds a slip. -/
theorem Sound.stage_cases (h : b.Sound) {fresh : String} {m : Mutation R} {st : Staging}
    (hst : b.stage fresh m = .ok (b',st)) :
    (∃ key s, st = .cancelled key ∧ b.slips.find? key = some s ∧ s.submitted = false ∧ Touches s.id b b' ∧
      ∀ k q, b'.slips.find? k = some q → b.slips.find? k = some q) ∨
    ∃ g, st = .staged g ∧ g.id = b.nextId ∧ Adds b b' := by
  rw [stage] at hst
  split at hst
  · cases hst
  dsimp only at hst
  generalize Reconciler.withKey fresh m = n at hst
  split at hst
  · cases hst
  · next hc =>
    split at hst
    · next s hs =>
      split at hst
      · next hcancel =>
        obtain ⟨rfl,rfl⟩ := Prod.mk.inj (Except.ok.inj hst)
        simp only [Bool.and_eq_true,Bool.not_eq_true'] at hcancel
        refine .inl ⟨n.key,s,rfl,hs,hcancel.2,?_⟩
        rw [drop_eq (h.linked _ s hs).sender]
        refine ⟨(h.touches_off hs (l := .cut) nofun).congr rfl rfl rfl rfl,fun k q hq => ?_⟩
        have hq : (b.slips.erase n.key).find? k = some q := hq
        rw [Table.find?_erase_of] at hq
        split at hq
        · cases hq
        · exact hq
      · cases hst
    · next hs =>
      split at hst
      · cases hst
      · next w _ =>
        obtain ⟨rfl,rfl⟩ := Prod.mk.inj (Except.ok.inj hst)
        exact .inr ⟨_,rfl,rfl,h.adds (by simpa using hc) hs _ w⟩

end
end Board
end FieldReplica
