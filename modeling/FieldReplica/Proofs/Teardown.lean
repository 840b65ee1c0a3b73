import FieldReplica.Proofs.Closing

/-!
# Closing a collection that is in use

The feed of a collection, its writers and those who close it work side by side. The feed wakes up, does some things
one after the other, and waits again. The first call that closes the collection tells the feed to end, waits until
it has come to rest, and does the other parts of a closing; a later call finds the feed told already and does not
wait. Between any two of these things anything else may happen, and a call that is given up goes on no more.

From the part on that ends the mutations nothing of a write is shown, sent or confirmed any more, and only the feed,
if a call did not wait for it, may still bring rows, events and a status. When a call has returned that waited for
the feed, or dropped the rows when the feed was at rest, nothing brings the collection back. On one thread nothing
else happens while the feed is at work, so there every call finds it at rest.
-/
namespace FieldReplica

variable {R : Type} [Row R]

/-- What the feed does at a time. -/
inductive FeedPart (R : Type) where
  | seed (rows : List R)
  | snapshot (rows : List R) (resync : Bool)
  | remote (cs : List (RemoteChange R))
  | live
  | status (s : CollectionStatus)
  | report (e : Event R)
  /-- The place of the subscription is shown. -/
  | place
  | next
  | ask

/-- What wakes the feed up. -/
inductive Wake (R : Type) where
  | rows (answer : Except AdapterError (List R))
  | batch (outcome : Except ShapeError ShapeResponse)
  | moment

def ShapeEvent.parts : ShapeEvent R → List (FeedPart R)
  | .snapshot rows resync => [.snapshot rows resync,.live]
  | .changes cs => [.remote cs,.live]
  | .upToDate => [.live]
  | .reconnecting attempt delay reason =>
    [.status (.reconnecting attempt),.report (.reconnecting attempt delay reason)]

/-- Desks that differ in what the store shows at most. -/
structure Desk.SameWrites (d d' : Desk R) : Prop where
  ledger : d'.reconciler.ledger = d.reconciler.ledger
  closed : d'.reconciler.closed = d.reconciler.closed
  handles : d'.handles = d.handles
  flights : d'.flights = d.flights

namespace Desk

variable {d d' : Desk R}

omit [Row R] in
theorem SameWrites.refl (d : Desk R) : d.SameWrites d := ⟨rfl,rfl,rfl,rfl⟩

omit [Row R] in
theorem SameWrites.solo (h : d.SameWrites d') (hs : d.Solo) : d'.Solo := by
  rw [Solo,h.flights]
  exact hs

omit [Row R] in
theorem SameWrites.shut (h : d.SameWrites d') (hs : d.Shut) : d'.Shut where
  closed := h.closed.trans hs.closed
  bare key := by
    rw [record?,h.ledger]
    exact hs.bare key
  released id f t deadline hf := by
    rw [find?,h.flights] at hf
    exact hs.released id f t deadline hf

end Desk

namespace Collection

def feedPart (c : Collection R) : FeedPart R → Collection R × List (Activity R)
  | .seed rows => ({ c with desk := c.desk.seed rows },[])
  | .snapshot rows resync => c.withDesk (c.desk.snapshot rows resync)
  | .remote cs => c.withDesk (c.desk.remote cs)
  | .live => (c.markLive,[])
  | .status s => ({ c with status := s },[])
  | .report e => (c.notify e,[])
  | .place => ({ c with position := c.subscription.position },[])
  | .next => c.fetchNext
  | .ask => ({ c with feed := .fetching },[.fetchBatch c.subscription.request])

/-- What the feed notes for itself when it wakes up, and what it is going to do; none if it does not wait for this. -/
def heed (c : Collection R) : Wake R → Option (Collection R × List (FeedPart R))
  | .rows answer =>
    match c.feed, answer with
    | .seeding, .ok rows => some (c,[.seed rows,.next])
    | .seeding, .error _ => some (c,[.next])
    | _, _ => none
  | .batch outcome =>
    match c.feed with
    | .fetching =>
      match c.subscription.receive outcome with
      | (s,.proceed) => some ({ c with subscription := s },[.next])
      | (s,.deliver e) => some ({ c with subscription := s },e.parts ++ [.place,.next])
      | (s,.failed e) => some ({ c with subscription := s, feed := .stopped },
          [.status (.failed e.message),.report (.subscriptionFailed e.message)])
    | _ => none
  | .moment =>
    match c.feed with
    | .sleeping _ deadline => if deadline ≤ c.desk.now then some (c,[.ask]) else none
    | _ => none

def closeParts (c : Collection R) : List ClosePart → Collection R × List (Activity R)
  | [] => (c,[])
  | p::ps =>
    let (c,first) := c.closePart p
    let (c,rest) := c.closeParts ps
    (c,first ++ rest)

variable {c : Collection R}

theorem closeParts_all (c : Collection R) : c.closeParts ClosePart.all = c.act .close := by
  simp only [closeParts,ClosePart.all,act,close,closePart,withDesk,List.nil_append,List.append_nil]

private theorem desk_of_heed {w : Wake R} {c' : Collection R} {ps : List (FeedPart R)} (h : c.heed w = some (c',ps)) :
    c'.desk = c.desk := by
  rw [heed.eq_def] at h
  split at h
  · split at h <;> cases h <;> rfl
  · split at h
    · split at h <;> cases h <;> rfl
    · cases h
  · split at h
    · split at h <;> cases h
      rfl
    · cases h

omit [Row R] in
private theorem desk_ne_fetchNext [Row R] (c : Collection R) : ∀ e, .desk e ∉ c.fetchNext.2 := by
  intro e
  rw [fetchNext]
  split <;> simp

private theorem feedPart_cases (c : Collection R) (p : FeedPart R) :
    (∃ a, a.releases? = none ∧ (c.feedPart p).1.desk = c.desk.step a ∧
      (c.feedPart p).2 = (c.desk.act a).2.map .desk) ∨
    c.desk.SameWrites (c.feedPart p).1.desk ∧ ∀ e, .desk e ∉ (c.feedPart p).2 := by
  cases p with
  | seed rows => exact .inl ⟨.seed rows,rfl,rfl,rfl⟩
  | snapshot rows resync => exact .inl ⟨.snapshot rows resync,rfl,rfl,rfl⟩
  | remote cs => exact .inl ⟨.remote cs,rfl,rfl,rfl⟩
  | next =>
    refine .inr ⟨?_,c.desk_ne_fetchNext⟩
    rw [feedPart,desk_fetchNext]
    exact .refl _
  | report e => exact .inr ⟨⟨rfl,rfl,rfl,rfl⟩,fun _ => List.not_mem_nil⟩
  | live | status s | place => exact .inr ⟨.refl _,fun _ => List.not_mem_nil⟩
  | ask => exact .inr ⟨.refl _,fun _ => by simp [feedPart]⟩

omit [Row R] in
private theorem closePart_cases (c : Collection R) (p : ClosePart) : p = .mutations ∨
    c.desk.SameWrites (c.closePart p).1.desk ∧ (c.closePart p).2 = [] := by
  cases p with
  | mutations => exact .inl rfl
  | feed | rows | status => exact .inr ⟨⟨rfl,rfl,rfl,rfl⟩,rfl⟩

end Collection

/-- A collection with its feed and with those who close it. -/
structure BusyCollection (R : Type) where
  collection : Collection R
  /-- What the feed has still to do before it waits again; none while it waits. -/
  errand : Option (List (FeedPart R))
  /-- The feed was told to end: it is not woken up any more. -/
  told : Bool
  /-- What each call that closes the collection has still to do. -/
  closers : List (List Collection.ClosePart)

/-- What may come next. -/
inductive CollectionTurn (R : Type) where
  | wake (w : Wake R)
  /-- The feed does the next thing. -/
  | feed
  /-- The feed has done everything, and waits. -/
  | rest
  | desk (a : Action R) (ha : a.isLocal = true)
  /-- A call begins that closes the collection. -/
  | close
  /-- The call of a number does its next part. -/
  | proceed (k : Nat)

/-- The mutation whose holder lets go of it, or whose submission ends, with a turn. -/
def CollectionTurn.releases? : CollectionTurn R → Option Nat
  | .desk a _ => a.releases?
  | _ => none

namespace BusyCollection

open Collection (ClosePart)

def opened (projectId : Int64) (options : CollectionOptions) (resume : Option Position) : BusyCollection R :=
  ⟨.opened projectId options resume,none,false,[]⟩

/-- An answer that is there already is taken in without waiting, also by a feed that was told to end. -/
def wakes (b : BusyCollection R) : Bool :=
  match b.errand with
  | none => !b.told
  | some ps => ps.isEmpty

/-- What a call that closes has to do when it begins. -/
def firstLeft (b : BusyCollection R) : List ClosePart :=
  if b.told then [.mutations,.rows,.status] else ClosePart.all

def act (b : BusyCollection R) : CollectionTurn R → BusyCollection R × List (Activity R)
  | .wake w =>
    match b.wakes,b.collection.heed w with
    | true,some (c,ps) => ({ b with collection := c, errand := some ps },[])
    | _,_ => (b,[])
  | .feed =>
    match b.errand with
    | some (p::ps) =>
      let (c,acts) := b.collection.feedPart p
      ({ b with collection := c, errand := some ps },acts)
    | _ => (b,[])
  | .rest =>
    match b.errand with
    | some [] => ({ b with errand := none },[])
    | _ => (b,[])
  | .desk a _ =>
    let (c,acts) := b.collection.withDesk (b.collection.desk.act a)
    ({ b with collection := c },acts)
  | .close => ({ b with told := true, closers := b.closers ++ [b.firstLeft] },[])
  | .proceed k =>
    match b.closers[k]? with
    | some (p::left) =>
      if p = .feed ∧ b.errand.isSome then (b,[])
      else
        let (c,acts) := b.collection.closePart p
        ({ b with collection := c, closers := b.closers.set k left },acts)
    | _ => (b,[])

def step (b : BusyCollection R) (t : CollectionTurn R) : BusyCollection R := (b.act t).1

def after (b : BusyCollection R) (ts : List (CollectionTurn R)) : BusyCollection R := ts.foldl step b

/-- What is asked for, and the submissions that end, in the course of some turns. -/
def activities (b : BusyCollection R) : List (CollectionTurn R) → List (Activity R)
  | [] => []
  | t::ts => (b.act t).2 ++ (b.step t).activities ts

variable {b : BusyCollection R}

theorem after_append (b : BusyCollection R) (ts us : List (CollectionTurn R)) :
    b.after (ts ++ us) = (b.after ts).after us := List.foldl_append

/-- What a turn does to the collection. -/
inductive Moves (b : BusyCollection R) : CollectionTurn R → Collection R → List (Activity R) → Prop
  | still (t : CollectionTurn R) : b.Moves t b.collection []
  | woken {w : Wake R} {c : Collection R} {ps : List (FeedPart R)} : b.wakes = true →
      b.collection.heed w = some (c,ps) → b.Moves (.wake w) c []
  | fed {p : FeedPart R} {ps : List (FeedPart R)} : b.errand = some (p::ps) →
      b.Moves .feed (b.collection.feedPart p).1 (b.collection.feedPart p).2
  | desk (a : Action R) (ha : a.isLocal = true) : b.Moves (.desk a ha)
      (b.collection.withDesk (b.collection.desk.act a)).1 (b.collection.withDesk (b.collection.desk.act a)).2
  | closed {k : Nat} {p : ClosePart} {left : List ClosePart} : b.closers[k]? = some (p::left) →
      b.Moves (.proceed k) (b.collection.closePart p).1 (b.collection.closePart p).2

private theorem moves_act (b : BusyCollection R) (t : CollectionTurn R) : b.Moves t (b.step t).collection
    (b.act t).2 := by
  cases t with
  | wake w =>
    rw [step,act]
    split
    · next hw hh => exact .woken hw hh
    · exact .still _
  | feed =>
    rw [step,act]
    split
    · next h => exact .fed h
    · exact .still _
  | rest =>
    rw [step,act]
    split <;> exact .still _
  | desk a ha => exact .desk a ha
  | close => exact .still _
  | proceed k =>
    rw [step,act]
    split
    · next h =>
      split
      · exact .still _
      · exact .closed h
    · exact .still _

variable {t : CollectionTurn R} {c : Collection R} {acts : List (Activity R)}

/-- A turn is an action at the desk, or leaves writes alone. -/
theorem Moves.desk_cases (h : b.Moves t c acts) :
    (∃ a, a.releases? = t.releases? ∧ c.desk = b.collection.desk.step a ∧
      acts = (b.collection.desk.act a).2.map .desk) ∨
    b.collection.desk.SameWrites c.desk ∧ ∀ e, .desk e ∉ acts := by
  cases h with
  | still => exact .inr ⟨.refl _,fun _ => List.not_mem_nil⟩
  | woken _ hh =>
    rw [Collection.desk_of_heed hh]
    exact .inr ⟨.refl _,fun _ => List.not_mem_nil⟩
  | fed => exact Collection.feedPart_cases _ _
  | desk a ha => exact .inl ⟨a,rfl,rfl,rfl⟩
  | @closed k p left _ =>
    rcases Collection.closePart_cases b.collection p with rfl | ⟨hd,hacts⟩
    · exact .inl ⟨.close,rfl,rfl,rfl⟩
    · rw [hacts]
      exact .inr ⟨hd,fun _ => List.not_mem_nil⟩

theorem Moves.solo (h : b.Moves t c acts) (hs : b.collection.desk.Solo) : c.desk.Solo := by
  rcases h.desk_cases with ⟨a,_,hd,_⟩ | ⟨hd,_⟩
  · rw [hd]
    exact Desk.solo_step hs a
  · exact hd.solo hs

/-- Mutations that have ended do not begin anew. -/
theorem Moves.shut (h : b.Moves t c acts) (hs : b.collection.desk.Solo) (hshut : b.collection.desk.Shut) :
    c.desk.Shut := by
  rcases h.desk_cases with ⟨a,_,hd,_⟩ | ⟨hd,_⟩
  · rw [hd]
    exact Desk.shut_step hs hshut a
  · exact hd.shut hshut

/-- Those who wait at a collection whose mutations have ended go on to wait, unless they are released, and of writes
nothing is left to happen but that submissions end. -/
structure Waits (b : BusyCollection R) (t : CollectionTurn R) (c : Collection R) (acts : List (Activity R)) : Prop where
  handles : ∀ s ∈ b.collection.desk.handles, t.releases? ≠ some s.id → s ∈ c.desk.handles
  flights : ∀ f ∈ b.collection.desk.flights, t.releases? ≠ some f.id → f ∈ c.desk.flights
  ends : ∀ e, .desk e ∈ acts → ∃ id result, e = .resolved id result

theorem Moves.waits (h : b.Moves t c acts) (hs : b.collection.desk.Solo) (hshut : b.collection.desk.Shut) :
    b.Waits t c acts := by
  rcases h.desk_cases with ⟨a,hr,hd,hacts⟩ | ⟨hd,hacts⟩
  · have hdwindles := Desk.dwindles_act hs hshut a
    refine ⟨?_,?_,?_⟩
    · intro s hs hne
      rw [hd]
      exact hdwindles.handles s hs (hr ▸ hne)
    · intro f hf hne
      rw [hd]
      exact hdwindles.flights f hf (hr ▸ hne)
    · intro e he
      rw [hacts,List.mem_map] at he
      obtain ⟨e',he',heq⟩ := he
      cases heq
      exact hdwindles.ends e he'
  · exact ⟨fun s hs _ => hd.handles ▸ hs,fun f hf _ => hd.flights ▸ hf,fun e he => absurd he (hacts e)⟩

/-- The feed was told to end, and has come to rest. -/
structure Over (b : BusyCollection R) : Prop where
  told : b.told = true
  rest : b.errand = none

private theorem told_step (h : b.told = true) (t : CollectionTurn R) : (b.step t).told = true := by
  cases t with
  | close => rfl
  | desk a ha => exact h
  | wake w | feed | rest =>
    rw [step,act]
    split <;> exact h
  | proceed k =>
    rw [step,act]
    split
    · split <;> exact h
    · exact h

theorem Over.step (h : b.Over) (t : CollectionTurn R) : (b.step t).Over := by
  refine ⟨told_step h.told t,?_⟩
  cases t with
  | close | desk a ha => exact h.rest
  | wake w =>
    have hdeaf : b.wakes = false := by rw [wakes,h.rest,h.told]; rfl
    rw [BusyCollection.step,act,hdeaf]
    exact h.rest
  | feed | rest =>
    rw [BusyCollection.step,act,h.rest]
    exact h.rest
  | proceed k =>
    rw [BusyCollection.step,act]
    split
    · split <;> exact h.rest
    · exact h.rest

/-- A turn leaves the calls that close as they are, begins one, or does the next part of one. -/
theorem closers_cases (b : BusyCollection R) (t : CollectionTurn R) :
    t ≠ .close ∧ (b.step t).closers = b.closers ∨
    t = .close ∧ (b.step t) = { b with told := true, closers := b.closers ++ [b.firstLeft] } ∨
    ∃ k p left, t = .proceed k ∧ b.closers[k]? = some (p::left) ∧ (p = .feed → b.errand = none) ∧
      b.step t = { b with collection := (b.collection.closePart p).1, closers := b.closers.set k left } := by
  cases t with
  | close => exact .inr (.inl ⟨rfl,rfl⟩)
  | desk a ha => exact .inl ⟨nofun,rfl⟩
  | wake w | feed | rest =>
    refine .inl ⟨nofun,?_⟩
    rw [step,act]
    split <;> rfl
  | proceed k =>
    rw [step,act]
    split
    · next p left hk =>
      split
      · exact .inl ⟨nofun,rfl⟩
      · next hgo =>
        refine .inr (.inr ⟨k,p,left,rfl,hk,fun hp => ?_,rfl⟩)
        rw [not_and,Bool.not_eq_true,Option.isSome_eq_false_iff,Option.isNone_iff_eq_none] at hgo
        exact hgo hp
    · exact .inl ⟨nofun,rfl⟩

/-- What holds of a collection and the calls that close it. -/
structure Sound (b : BusyCollection R) : Prop where
  solo : b.collection.desk.Solo
  told : b.closers ≠ [] → b.told = true
  suffix : ∀ left ∈ b.closers, left <:+ ClosePart.all
  shut : ∀ left ∈ b.closers, .mutations ∉ left → b.collection.desk.Shut

theorem sound_opened (projectId : Int64) (options : CollectionOptions) (resume : Option Position) :
    (opened projectId options resume : BusyCollection R).Sound where
  solo := Collection.solo_opened projectId options resume
  told h := absurd rfl h
  suffix := List.forall_mem_nil _
  shut := List.forall_mem_nil _

omit [Row R] in
private theorem firstLeft_cases (b : BusyCollection R) :
    b.firstLeft = ClosePart.all ∧ b.told = false ∨ b.firstLeft = [.mutations,.rows,.status] ∧ b.told = true := by
  rw [firstLeft]
  cases b.told <;> simp

theorem sound_step (h : b.Sound) (t : CollectionTurn R) : (b.step t).Sound := by
  have hmoves := moves_act b t
  have hshut := fun left hl hm => hmoves.shut h.solo (h.shut left hl hm)
  rcases closers_cases b t with ⟨_,hc⟩ | ⟨rfl,hc⟩ | ⟨k,p,left,_,hk,_,hc⟩
  · refine ⟨hmoves.solo h.solo,?_,?_,?_⟩
    · exact fun hne => told_step (h.told (hc ▸ hne)) t
    · exact fun left hl => h.suffix left (hc ▸ hl)
    · exact fun left hl => hshut left (hc ▸ hl)
  · have hmem : ∀ {left}, left ∈ (b.step .close).closers → left ∈ b.closers ∨ left = b.firstLeft := by
      intro left hl
      rw [hc] at hl
      simpa using hl
    refine ⟨hmoves.solo h.solo,fun _ => rfl,?_,?_⟩
    · intro left hl
      rcases hmem hl with hl | rfl
      · exact h.suffix left hl
      · rcases b.firstLeft_cases with ⟨hf,_⟩ | ⟨hf,_⟩
        · exact hf ▸ List.suffix_refl _
        · exact hf ▸ List.suffix_cons _ _
    · intro left hl hm
      rcases hmem hl with hl | rfl
      · exact hshut left hl hm
      · rcases b.firstLeft_cases with ⟨hf,_⟩ | ⟨hf,_⟩ <;> rw [hf] at hm <;> exact absurd (by decide) hm
  · have hfirst := List.mem_of_getElem? hk
    have hmem : ∀ {left'}, left' ∈ (b.step t).closers → left' ∈ b.closers ∨ left' = left := by
      intro left' hl
      rw [hc] at hl
      exact List.mem_or_eq_of_mem_set hl
    refine ⟨hmoves.solo h.solo,?_,?_,?_⟩
    · exact fun _ => told_step (h.told (List.ne_nil_of_mem hfirst)) t
    · intro left' hl
      rcases hmem hl with hl | rfl
      · exact h.suffix left' hl
      · exact (List.suffix_cons p left').trans (h.suffix _ hfirst)
    · intro left' hl hm
      rcases hmem hl with hl | rfl
      · exact hshut left' hl hm
      · by_cases hp : p = .mutations
        · rw [hc,hp]
          exact Collection.shut_mutations _
        · exact hshut _ hfirst (List.not_mem_cons_of_ne_of_not_mem (Ne.symm hp) hm)

theorem sound_after (h : b.Sound) (ts : List (CollectionTurn R)) : (b.after ts).Sound := by
  induction ts generalizing b with
  | nil => exact h
  | cons t ts ih => exact ih (sound_step h t)

theorem Over.after (h : b.Over) (ts : List (CollectionTurn R)) : (b.after ts).Over := by
  induction ts generalizing b with
  | nil => exact h
  | cons t ts ih => exact ih (h.step t)

/-- A call that does not wait for the feed may return before the feed has shown what it is about. -/
example :
    let b := (opened 7 ⟨30000,.default,true,8⟩ none).after
      [.wake (.rows (.ok [Entity.inState "E5" .ready])),.close,.close,.proceed 1,.proceed 1,.proceed 1]
    b.closers = [ClosePart.all,[]] ∧ b.collection.store.size = 0 ∧ (b.step .feed).collection.store.size = 1 := by
  decide +kernel

end BusyCollection
end FieldReplica
