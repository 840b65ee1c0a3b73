import FieldReplica.Proofs.Boards
import FieldReplica.Proofs.Run

/-!
# Submissions that listen

A counter is a board with the holders of staged mutations and the submissions that are under way. A submission that
waits for its confirmation has the far end of its mutation's line, and hears what was said there when it listens,
which it does in its own time. All that can happen at a desk can happen at a counter, and any of the submissions
may listen at any moment.
-/
namespace FieldReplica

variable {R : Type}

/-- A submission that is under way. -/
structure Trip (R : Type) where
  id : Nat
  key : String
  mutation : Mutation R
  phase : Phase
deriving DecidableEq

/-- How the line ends the wait of a submission. -/
def Trip.heard (lines : Nat → Line) (t : Trip R) : Option (Except MutationError Outcome) :=
  match t.phase with
  | .confirmation _ _ =>
    match lines t.id with
    | .silent => none
    | .said txid => some (.ok (.confirmed t.key txid))
    | .cut => some (.error .closed)
  | .reply | .reading _ => none

/-- A board, the staged mutations that are held, and the submissions under way in the order in which they began
to wait for what they wait for. -/
structure Counter (R : Type) where
  board : Board R
  handles : List Staged
  trips : List (Trip R)
  timeout : Nat
  now : Nat

/-- What can happen at a counter. -/
inductive Turn (R : Type) where
  | act (a : Action R)
  /-- Some of the submissions listen. -/
  | listen (who : Nat → Bool)

namespace Counter

variable [Row R]

def create (capacity timeout : Nat) : Counter R := ⟨.create (.create capacity),[],[],timeout,0⟩

def find? (c : Counter R) (id : Nat) : Option (Trip R) := c.trips.find? (·.id = id)

def without (c : Counter R) (id : Nat) : Counter R := { c with trips := c.trips.filter (·.id ≠ id) }

def requeue (c : Counter R) (t : Trip R) : Counter R :=
  { c with trips := (c.without t.id).trips ++ [t] }

def resolve (c : Counter R) (id : Nat) (result : Except MutationError Outcome) :
    Counter R × List (Effect R) :=
  (c.without id,[.resolved id result])

/-! ### Local writes -/

def stage (c : Counter R) (fresh : String) (m : Mutation R) : Counter R :=
  match c.board.stage fresh m with
  | .ok (b,.staged g) => { c with board := b, handles := c.handles ++ [g] }
  | .ok (b,.cancelled _) => { c with board := b }
  | .error _ => c

/-- The holder lets go of a staged mutation. -/
def discard (c : Counter R) (id : Nat) : Counter R :=
  { c with handles := c.handles.filter (·.id ≠ id) }

def submit (c : Counter R) (id : Nat) : Counter R × List (Effect R) :=
  match c.handles.find? (·.id = id) with
  | none => (c,[])
  | some g =>
    let c := c.discard id
    match c.board.beginSubmit g with
    | .error e => (c,[.resolved id (.error e)])
    | .ok (_,.cancelled) => (c,[.resolved id (.ok (.cancelled g.key))])
    | .ok (b,.send m) => (({ c with board := b }).requeue ⟨id,g.key,m,.reply⟩,[.submit m])

/-! ### Answers -/

def reply (c : Counter R) (id : Nat) (answer : Except AdapterError Txid) : Counter R × List (Effect R) :=
  match c.find? id with
  | some ⟨_,key,m,.reply⟩ =>
    match answer with
    | .error e =>
      let e := MutationError.ofAdapter e
      ({ c with board := c.board.rollBack key id e }).resolve id (.error e)
    | .ok t =>
      match c.board.awaitTxid key id t with
      | .error e => c.resolve id (.error e)
      | .ok (b,true) => ({ c with board := b }).resolve id (.ok (.confirmed key t))
      | .ok (b,false) =>
        (({ c with board := b }).requeue ⟨id,key,m,.confirmation t (c.now + c.timeout)⟩,[])
  | _ => (c,[])

/-- The deadline of a submission passes. What its line says goes before the deadline. -/
def expire (c : Counter R) (id : Nat) : Counter R × List (Effect R) :=
  match c.find? id with
  | some ⟨_,key,m,.confirmation t deadline⟩ =>
    if deadline ≤ c.now then
      match Trip.heard c.board.lines (⟨id,key,m,.confirmation t deadline⟩ : Trip R) with
      | some result => c.resolve id result
      | none => (c.requeue ⟨id,key,m,.reading t⟩,[.fetchRow key])
    else (c,[])
  | _ => (c,[])

def read (c : Counter R) (id : Nat) (answer : Except AdapterError (Option R)) :
    Counter R × List (Effect R) :=
  match c.find? id with
  | some ⟨_,key,m,.reading t⟩ =>
    match c.board.lines id with
    | .said txid => c.resolve id (.ok (.confirmed key txid))
    | .silent | .cut =>
      let (b,result) := c.board.settle key id t m answer
      ({ c with board := b }).resolve id result
  | _ => (c,[])

/-- Some of the submissions that wait for a confirmation listen. -/
def listen (c : Counter R) (who : Nat → Bool) : Counter R × List (Effect R) :=
  ({ c with trips := c.trips.filter fun t => !(who t.id && (t.heard c.board.lines).isSome) },
    (c.trips.filter fun t => who t.id).filterMap fun t =>
      (t.heard c.board.lines).map fun result => .resolved t.id result)

/-! ### Runs -/

/-- The counter after an action, and what the action asks for and ends. -/
def act (c : Counter R) : Action R → Counter R × List (Effect R)
  | .stage fresh m => (c.stage fresh m,[])
  | .discard id => (c.discard id,[])
  | .submit id => c.submit id
  | .abort id => (c.without id,[])
  | .reply id answer => c.reply id answer
  | .expire id => c.expire id
  | .read id answer => c.read id answer
  | .advance ms => ({ c with now := c.now + ms },[])
  | .remote cs => ({ c with board := (c.board.applyRemote cs).1 },[])
  | .snapshot rows resync => ({ c with board := (c.board.applySnapshot rows resync).1 },[])
  | .seed rows => ({ c with board := c.board.seed rows },[])
  | .close => ({ c with board := c.board.close },[])

def take (c : Counter R) : Turn R → Counter R × List (Effect R)
  | .act a => c.act a
  | .listen who => c.listen who

def step (c : Counter R) (t : Turn R) : Counter R := (c.take t).1

def after (c : Counter R) (ts : List (Turn R)) : Counter R := ts.foldl step c

def effects (c : Counter R) : List (Turn R) → List (Effect R)
  | [] => []
  | t::ts => (c.take t).2 ++ (c.step t).effects ts

/-! ### What a submission can count on -/

/-- A held mutation was not sent. -/
structure Unsent (b : Board R) (g : Staged) : Prop where
  known : g.id < b.nextId
  unsent : ∀ k s, b.slips.find? k = some s → s.id = g.id → s.submitted = false

/-- A mutation whose submission is under way was sent, and its line is not cut unless the board is closed. -/
structure Attended (b : Board R) (t : Trip R) : Prop where
  known : t.id < b.nextId
  sent : ∀ k s, b.slips.find? k = some s → s.id = t.id → s.submitted = true
  uncut : b.lines t.id = .cut → b.closed = true

/-- The board agrees with itself, with those who hold mutations and with those who submit them. -/
structure Sound (c : Counter R) : Prop where
  board : c.board.Sound
  handle : ∀ g ∈ c.handles, Unsent c.board g
  trip : ∀ t ∈ c.trips, Attended c.board t

/-- What is as before about the mutation `id`. -/
structure Keeps (id : Nat) (b b' : Board R) : Prop where
  next : b.nextId ≤ b'.nextId
  closed : b.closed = true → b'.closed = true
  slip : ∀ k q, b'.slips.find? k = some q → q.id = id →
    ∃ p, b.slips.find? k = some p ∧ p.id = id ∧ q.submitted = p.submitted
  cut : b'.lines id = .cut → b.lines id = .cut ∨ b'.closed = true

variable {b b' : Board R} {c : Counter R} {id : Nat}

private theorem keeps_seed (b : Board R) (rows : List R) (id : Nat) : Keeps id b (b.seed rows) :=
  ⟨Nat.le_refl _,fun h => h,fun _ q hq hi => ⟨q,hq,hi,rfl⟩,.inl⟩

omit [Row R] in
theorem Keeps.unsent {g : Staged} (h : Keeps g.id b b') (hg : Unsent b g) : Unsent b' g := by
  refine ⟨Nat.lt_of_lt_of_le hg.known h.next,fun k q hq hi => ?_⟩
  obtain ⟨p,hp,hpi,hs⟩ := h.slip k q hq hi
  exact hs.trans (hg.unsent k p hp hpi)

omit [Row R] in
private theorem Keeps.attended {t : Trip R} (h : Keeps t.id b b') (ht : Attended b t) : Attended b' t := by
  refine ⟨Nat.lt_of_lt_of_le ht.known h.next,fun k q hq hi => ?_,fun hcut => ?_⟩
  · obtain ⟨p,hp,hpi,hs⟩ := h.slip k q hq hi
    exact hs.trans (ht.sent k p hp hpi)
  · rcases h.cut hcut with hcut | hc
    · exact h.closed (ht.uncut hcut)
    · exact hc

private theorem keeps_of_touches {i : Nat} (h : Board.Touches i b b') (hne : id ≠ i) : Keeps id b b' where
  next := Nat.le_of_eq h.next.symm
  closed hc := h.closed.trans hc
  slip k q hq hi := ⟨q,h.other k q hq (hi ▸ hne),hi,rfl⟩
  cut hcut := .inl ((h.line id hne).symm.trans hcut)

private theorem keeps_of_adds (h : Board.Adds b b') (hid : id < b.nextId) : Keeps id b b' where
  next := Nat.le_of_lt (h.next ▸ Nat.lt_succ_self _)
  closed hc := h.closed.trans hc
  slip k q hq hi := by
    rcases h.slip k q hq with ⟨hn,_⟩ | hq
    · exact absurd (hi.symm.trans hn) (Nat.ne_of_lt hid)
    · exact ⟨q,hq,hi,rfl⟩
  cut hcut := .inl ((h.line id (Nat.ne_of_lt hid)).symm.trans hcut)

private theorem keeps_of_leads {cs : List Confirmation} (h : Board.Leads b b' cs) (id : Nat) : Keeps id b b' where
  next := Nat.le_of_eq h.next.symm
  closed hc := h.closed.trans hc
  slip k q hq hi := by
    obtain ⟨p,hp,hpi,hs⟩ := h.stays k q hq
    exact ⟨p,hp,hpi.symm.trans hi,hs⟩
  cut hcut := .inl (h.tells.cut hcut)

private theorem keeps_close (h : b.Sound) (id : Nat) : Keeps id b b.close := by
  rw [h.close_eq]
  exact ⟨Nat.le_refl _,fun _ => rfl,nofun,fun _ => .inr rfl⟩

/-- A counter goes on: all agrees, and the board is as open as it was. -/
structure Continues (c c' : Counter R) : Prop where
  sound : c'.Sound
  closed : c'.board.closed = c.board.closed

/-- A board on which everything is kept serves the same holders and submissions. -/
theorem Sound.of_keeps (h : c.Sound) (hb : b'.Sound) (hk : ∀ id, Keeps id c.board b') :
    ({ c with board := b' } : Counter R).Sound :=
  ⟨hb,fun g hg => (hk g.id).unsent (h.handle g hg),fun t ht => (hk t.id).attended (h.trip t ht)⟩

/-- An operation on the slip of one mutation, which nobody holds any more, serves all submissions but that
mutation's, and that one if it can still count on the board. -/
theorem Sound.continues (h : c.Sound) (ht : Board.Touches id c.board b') {c' : Counter R}
    (hb : c'.board = b') (hh : ∀ g ∈ c'.handles, g ∈ c.handles ∧
      (g.id = id → ∀ k s, c.board.slips.find? k = some s → s.id ≠ id))
    (htr : ∀ t ∈ c'.trips, (t ∈ c.trips ∧ t.id ≠ id) ∨ Attended b' t) : Continues c c' := by
  subst hb
  refine ⟨⟨ht.sound,fun g hg => ?_,fun t hmem => ?_⟩,ht.closed⟩
  · obtain ⟨hg,hfree⟩ := hh g hg
    have hu := h.handle g hg
    by_cases hi : g.id = id
    · refine ⟨ht.next ▸ hu.known,fun k q hq hqi => ?_⟩
      obtain ⟨p,hp,hpi,_⟩ := ht.own k q hq (hqi.trans hi)
      exact absurd hpi (hfree hi k p hp)
    · exact (keeps_of_touches ht hi).unsent hu
  · rcases htr t hmem with ⟨hmem,hne⟩ | ha
    · exact (keeps_of_touches ht hne).attended (h.trip t hmem)
    · exact ha

/-- What is under way is not held, as long as there is a slip for it. -/
theorem Sound.unheld (h : c.Sound) {t : Trip R} (ht : t ∈ c.trips) {g : Staged} (hg : g ∈ c.handles)
    (hi : g.id = t.id) (k : String) (s : Slip R) (hs : c.board.slips.find? k = some s) : s.id ≠ t.id := by
  intro hsi
  have hunsent := (h.handle g hg).unsent k s hs (hsi.trans hi.symm)
  rw [(h.trip t ht).sent k s hs hsi] at hunsent
  cases hunsent

private theorem continues_resolve (h : c.Sound) {t : Trip R} (hmem : t ∈ c.trips)
    (ht : Board.Touches t.id c.board b') (result : Except MutationError Outcome) :
    Continues c (({ c with board := b' } : Counter R).resolve t.id result).1 := by
  refine h.continues ht rfl (fun g hg => ⟨hg,h.unheld hmem hg⟩) fun u hu => .inl ?_
  obtain ⟨hu,hne⟩ := List.mem_filter.mp hu
  exact ⟨hu,of_decide_eq_true hne⟩

private theorem continues_requeue (h : c.Sound) {t u : Trip R} (hmem : t ∈ c.trips) (hid : u.id = t.id)
    (ht : Board.Touches t.id c.board b') (hu : Attended b' u) :
    Continues c (({ c with board := b' } : Counter R).requeue u) := by
  refine h.continues ht rfl (fun g hg => ⟨hg,h.unheld hmem hg⟩) fun v hv => ?_
  rcases List.mem_append.mp hv with hv | hv
  · obtain ⟨hv,hne⟩ := List.mem_filter.mp hv
    exact .inl ⟨hv,hid ▸ of_decide_eq_true hne⟩
  · obtain rfl := List.mem_singleton.mp hv
    exact .inr hu

private theorem Sound.fewer (h : c.Sound) {c' : Counter R} (hb : c'.board = c.board)
    (hh : ∀ g ∈ c'.handles, g ∈ c.handles) (ht : ∀ t ∈ c'.trips, t ∈ c.trips) : Continues c c' := by
  refine ⟨?_,by rw [hb]⟩
  constructor <;> rw [hb]
  exacts [h.board,fun g hg => h.handle g (hh g hg),fun t hm => h.trip t (ht t hm)]

private theorem Sound.continues_refl (h : c.Sound) : Continues c c := ⟨h,rfl⟩

omit [Row R] in
theorem mem_of_find? {t : Trip R} (h : c.find? id = some t) : t ∈ c.trips ∧ t.id = id :=
  ⟨List.mem_of_find?_eq_some h,by simpa using List.find?_some h⟩

/-! ### What each turn keeps -/

private theorem continues_stage (h : c.Sound) (fresh : String) (m : Mutation R) :
    Continues c (c.stage fresh m) := by
  rw [stage]
  cases hst : c.board.stage fresh m with
  | error e => exact h.continues_refl
  | ok x =>
    obtain ⟨b',st⟩ := x
    rcases h.board.stage_cases hst with ⟨key,s,rfl,hs,hunsent,htouch,hold⟩ | ⟨g,rfl,hg,hadd⟩
    · refine ⟨⟨htouch.sound,fun g hg => ?_,fun t ht => ?_⟩,htouch.closed⟩
      · have hu := h.handle g hg
        exact ⟨htouch.next ▸ hu.known,fun k q hq => hu.unsent k q (hold k q hq)⟩
      · -- the insertion that is taken back has no submission, since it was not sent
        have ha := h.trip t ht
        have hne : t.id ≠ s.id := by
          intro he
          rw [ha.sent key s hs he.symm] at hunsent
          cases hunsent
        exact (keeps_of_touches htouch hne).attended ha
    · refine ⟨⟨hadd.sound,fun g' hg' => ?_,fun t ht => ?_⟩,hadd.closed⟩
      · rcases List.mem_append.mp hg' with hg' | hg'
        · have hu := h.handle g' hg'
          exact (keeps_of_adds hadd hu.known).unsent hu
        · obtain rfl := List.mem_singleton.mp hg'
          refine ⟨by rw [hg]; exact hadd.next ▸ Nat.lt_succ_self _,fun k q hq hi => ?_⟩
          rcases hadd.slip k q hq with ⟨_,hunsent⟩ | hq
          · exact hunsent
          · exact absurd (hi.trans hg) (Nat.ne_of_lt (h.board.known k q hq))
      · have ha := h.trip t ht
        exact (keeps_of_adds hadd ha.known).attended ha

private theorem continues_submit (h : c.Sound) (id : Nat) : Continues c (c.submit id).1 := by
  rw [submit]
  split
  · exact h.continues_refl
  · next g hg =>
    have hid : g.id = id := by simpa using List.find?_some hg
    have hmem : g ∈ c.handles := List.mem_of_find?_eq_some hg
    have hrest : Continues c (c.discard id) := h.fewer rfl (fun g hg => (List.mem_filter.mp hg).1) fun t ht => ht
    dsimp only
    split
    · exact hrest
    · exact hrest
    · next b' m hb =>
      obtain ⟨htouch,hsent,hlines,s,hs⟩ := h.board.touches_beginSubmit hb
      obtain ⟨hs,hsi⟩ := Board.find?_eq_some.mp hs
      subst hid
      refine h.continues htouch rfl (fun g' hg' => ?_) fun u hu => ?_
      · obtain ⟨hg',hne⟩ := List.mem_filter.mp hg'
        exact ⟨hg',fun he => absurd he (of_decide_eq_true hne)⟩
      · rcases List.mem_append.mp hu with hu | hu
        · obtain ⟨hu,hne⟩ := List.mem_filter.mp hu
          exact .inl ⟨hu,of_decide_eq_true hne⟩
        · obtain rfl := List.mem_singleton.mp hu
          refine .inr ⟨htouch.next ▸ (h.handle g hmem).known,hsent,fun hcut => ?_⟩
          have hsilent := h.board.unused _ s hs
          rw [hsi,← hlines] at hsilent
          rw [hsilent] at hcut
          cases hcut

private theorem continues_reply (h : c.Sound) (id : Nat) (answer : Except AdapterError Txid) :
    Continues c (c.reply id answer).1 := by
  rw [reply]
  split
  · next i key m hf =>
    obtain ⟨hmem,rfl⟩ := mem_of_find? hf
    have ha := h.trip _ hmem
    cases answer with
    | error e => exact continues_resolve h hmem (h.board.touches_rollBack key _ _) _
    | ok t =>
      dsimp only
      split
      · exact continues_resolve h hmem (h.board.touches_refl _) _
      · next b' hb => exact continues_resolve h hmem (h.board.touches_awaitTxid ha.sent hb).1 _
      · next b' hb =>
        obtain ⟨htouch,hlines⟩ := h.board.touches_awaitTxid ha.sent hb
        refine continues_requeue h hmem rfl htouch ⟨htouch.next ▸ ha.known,fun k q hq hi => ?_,fun hcut => ?_⟩
        · obtain ⟨p,hp,hpi,hs⟩ := htouch.own k q hq hi
          exact hs (ha.sent k p hp hpi)
        · rw [(hlines rfl).1] at hcut
          exact htouch.closed.trans (ha.uncut hcut)
  · exact h.continues_refl

private theorem continues_expire (h : c.Sound) (id : Nat) : Continues c (c.expire id).1 := by
  rw [expire]
  split
  · next i key m t deadline hf =>
    obtain ⟨hmem,rfl⟩ := mem_of_find? hf
    have ha := h.trip _ hmem
    split
    · split
      · exact continues_resolve h hmem (h.board.touches_refl _) _
      · exact continues_requeue h hmem rfl (h.board.touches_refl _) ⟨ha.known,ha.sent,ha.uncut⟩
    · exact h.continues_refl
  · exact h.continues_refl

private theorem continues_read (h : c.Sound) (id : Nat) (answer : Except AdapterError (Option R)) :
    Continues c (c.read id answer).1 := by
  rw [read]
  split
  · next i key m t hf =>
    obtain ⟨hmem,rfl⟩ := mem_of_find? hf
    split
    · exact continues_resolve h hmem (h.board.touches_refl _) _
    · exact continues_resolve h hmem (h.board.touches_settle key _ t m answer) _
    · exact continues_resolve h hmem (h.board.touches_settle key _ t m answer) _
  · exact h.continues_refl

private theorem continues_step (h : c.Sound) {t : Turn R} (ht : t ≠ .act .close) : Continues c (c.step t) := by
  cases t with
  | listen who => exact h.fewer rfl (fun g hg => hg) fun t ht => (List.mem_filter.mp ht).1
  | act a =>
    cases a with
    | stage fresh m => exact continues_stage h fresh m
    | discard id => exact h.fewer rfl (fun g hg => (List.mem_filter.mp hg).1) fun t ht => ht
    | submit id => exact continues_submit h id
    | abort id => exact h.fewer rfl (fun g hg => hg) fun t ht => (List.mem_filter.mp ht).1
    | reply id answer => exact continues_reply h id answer
    | expire id => exact continues_expire h id
    | read id answer => exact continues_read h id answer
    | advance ms => exact h.fewer rfl (fun g hg => hg) fun t ht => ht
    | remote cs =>
      have hlead := h.board.leads_applyRemote cs
      exact ⟨h.of_keeps hlead.sound (keeps_of_leads hlead),hlead.closed⟩
    | snapshot rows resync =>
      have hlead := h.board.leads_applySnapshot rows resync
      exact ⟨h.of_keeps hlead.sound (keeps_of_leads hlead),hlead.closed⟩
    | seed rows => exact ⟨h.of_keeps (h.board.congr rfl rfl rfl rfl) (keeps_seed c.board rows),rfl⟩
    | close => exact absurd rfl ht

private theorem sound_close (h : c.Sound) : (c.step (.act .close)).Sound :=
  h.of_keeps h.board.close (keeps_close h.board)

theorem sound_step (h : c.Sound) (t : Turn R) : (c.step t).Sound := by
  by_cases ht : t = .act .close
  · rw [ht]
    exact sound_close h
  · exact (continues_step h ht).sound

/-- Closing closes the board, and nothing else does or undoes it. -/
theorem closed_step (h : c.Sound) (t : Turn R) :
    (c.step t).board.closed = true ↔ c.board.closed = true ∨ t = .act .close := by
  by_cases ht : t = .act .close
  · subst ht
    have hclosed : (c.step (.act .close)).board.closed = true := by
      change c.board.close.closed = true
      rw [h.board.close_eq]
    simp [hclosed]
  · rw [(continues_step h ht).closed]
    simp [ht]

theorem sound_create (capacity timeout : Nat) : (create capacity timeout : Counter R).Sound :=
  ⟨Board.sound_create _,by nofun,by nofun⟩

theorem sound_after (h : c.Sound) (ts : List (Turn R)) : (c.after ts).Sound := by
  induction ts generalizing c with
  | nil => exact h
  | cons t ts ih => exact ih (sound_step h t)

theorem closed_after (h : c.Sound) (ts : List (Turn R)) :
    (c.after ts).board.closed = true ↔ c.board.closed = true ∨ .act .close ∈ ts := by
  induction ts generalizing c with
  | nil => simp [after]
  | cons t ts ih =>
    refine (ih (sound_step h t)).trans ?_
    rw [closed_step h,List.mem_cons,or_assoc,@eq_comm _ t]

end Counter
end FieldReplica
