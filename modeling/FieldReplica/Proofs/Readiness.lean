import FieldReplica.Proofs.Replication
import Mathlib.Data.List.Induction

/-!
# When a collection is ready

A collection says that it is ready, and live, as soon as the stream has told it something. One that starts
with an image of its own is told nothing before the image is complete. One that goes on from a position has
only the rows that it asked for at the start: if these did not come, it is ready, and live, with a store
that lacks them.
-/
namespace FieldReplica

variable {R : Type} [Row R]

namespace Subscription

private theorem image_receive {s : Subscription R} {x : Except ShapeError ShapeResponse}
    (h : (s.receive x).1.image = none) :
    s.image = none ∨ ∃ rows resync, (s.receive x).2 = .deliver (.snapshot rows resync) := by
  cases hi : s.image with
  | none => exact .inl rfl
  | some image =>
    right
    rcases x with e | (b | _)
    · exfalso
      rw [receive] at h
      split at h
      · cases hi.symm.trans h
      · dsimp only at h
        split at h <;> cases hi.symm.trans h
    · rw [receive_batch] at h ⊢
      rw [applyBatch] at h ⊢
      simp only [hi,Option.isNone_some,Bool.false_and,Bool.false_eq_true,if_false] at h ⊢
      split at h
      · cases h
      · next hgo =>
        rw [if_neg hgo]
        split at h
        · next hdone =>
          rw [if_pos hdone]
          exact ⟨_,_,rfl⟩
        · cases h
    · cases h

/-- While an image is being gathered nothing else is delivered but failures. -/
theorem image_of_news {s : Subscription R} {x : Except ShapeError ShapeResponse} {e : ShapeEvent R}
    (h : (s.receive x).2 = .deliver e) (hn : e.isNews) :
    s.image = none ∨ ∃ rows resync, e = .snapshot rows resync := by
  cases hi : s.image with
  | none => exact .inl rfl
  | some image =>
    right
    rcases x with err | (b | _)
    · exfalso
      rw [receive] at h
      split at h
      · cases h
      · dsimp only at h
        split at h
        · cases h
        · cases h
          cases hn
    · rw [receive_batch,applyBatch] at h
      simp only [hi,Option.isNone_some,Bool.false_and,Bool.false_eq_true,if_false] at h
      split at h
      · cases h
      · split at h
        · cases h
          exact ⟨_,_,rfl⟩
        · cases h
    · cases h

end Subscription

/-- Whether an action is a writer's, or that of the server or the clock on a write, and not the feed's. -/
def Action.isLocal : Action R → Bool
  | .remote _ | .snapshot _ _ | .seed _ | .close => false
  | _ => true

/-- What can happen to a collection: the rows of the table arrive or do not, a request for a batch has an
outcome, the wait of the feed ends, something happens to a write, or the collection is closed. -/
inductive Occasion (R : Type) where
  | rows (answer : Except AdapterError (List R))
  | batch (outcome : Except ShapeError ShapeResponse)
  | awaken
  | desk (a : Action R) (ha : a.isLocal = true)
  | close

/-- A feature is inserted and sent under a number. -/
def sendOff (id : Nat) (key : String) : List (Occasion Entity) := [
  .desk (.stage "" (.insert (.inState key .ready))) rfl,
  .desk (.submit id) rfl]

namespace Collection

def act (c : Collection R) : Occasion R → Collection R × List (Activity R)
  | .rows answer => c.receiveRows answer
  | .batch outcome => c.receiveBatch outcome
  | .awaken => c.awaken
  | .desk a _ => c.withDesk (c.desk.act a)
  | .close => c.close

def step (c : Collection R) (o : Occasion R) : Collection R := (c.act o).1

def after (c : Collection R) (os : List (Occasion R)) : Collection R := os.foldl step c

/-- What an occasion has the subscription deliver. -/
def delivered? (c : Collection R) : Occasion R → Option (ShapeEvent R)
  | .batch outcome =>
    match c.feed with
    | .fetching => (c.subscription.receive outcome).2.event?
    | _ => none
  | _ => none

variable {c : Collection R} {o : Occasion R} {e : ShapeEvent R}

theorem after_snoc (c : Collection R) (os : List (Occasion R)) (o : Occasion R) :
    c.after (os ++ [o]) = (c.after os).step o := List.foldl_append

theorem delivered?_eq_some : c.delivered? o = some e ↔ ∃ outcome, o = .batch outcome ∧
    c.feed = .fetching ∧ (c.subscription.receive outcome).2 = .deliver e := by
  cases o with
  | batch outcome =>
    rw [delivered?]
    split
    · next hf =>
      have hevent : (c.subscription.receive outcome).2.event? = some e ↔
          (c.subscription.receive outcome).2 = .deliver e := by
        cases (c.subscription.receive outcome).2 <;> simp [Subscription.Step.event?]
      rw [hevent]
      refine ⟨fun h => ⟨outcome,rfl,hf,h⟩,?_⟩
      rintro ⟨_,hsame,_,h⟩
      cases hsame
      exact h
    · next hf =>
      constructor
      · intro h
        cases h
      · rintro ⟨_,_,hfetching,_⟩
        exact absurd hfetching hf
  | rows answer | awaken | desk a ha | close => simp [delivered?]

/-! ### What a step changes -/

private theorem image_fetchNext (c : Collection R) : c.fetchNext.1.subscription.image = c.subscription.image := by
  obtain ⟨delay,f,hc,_⟩ := Replica.fetchNext_eq c
  rw [hc]

theorem desk_fetchNext (c : Collection R) : c.fetchNext.1.desk = c.desk := by
  obtain ⟨delay,f,hc,_⟩ := Replica.fetchNext_eq c
  rw [hc]

theorem step_rows_ok (hf : c.feed = .seeding) (rows : List R) :
    c.step (.rows (.ok rows)) = ({ c with desk := c.desk.seed rows } : Collection R).fetchNext.1 := by
  rw [step,act,receiveRows.eq_def,hf]

theorem step_rows_error (hf : c.feed = .seeding) (x : AdapterError) :
    c.step (.rows (.error x)) = c.fetchNext.1 := by
  rw [step,act,receiveRows.eq_def,hf]

theorem step_rows_of_ne (hf : c.feed ≠ .seeding) (answer : Except AdapterError (List R)) :
    c.step (.rows answer) = c := by
  rw [step,act,receiveRows.eq_def]
  split
  · next h => exact absurd h hf
  · rfl

theorem step_awaken (c : Collection R) : c.step .awaken = c ∨
    (∃ since deadline, c.feed = .sleeping since deadline) ∧
      c.step .awaken = { c with feed := .fetching } := by
  rw [step,act,awaken]
  split
  · next since deadline hf =>
    split
    · exact .inr ⟨⟨since,deadline,hf⟩,rfl⟩
    · exact .inl rfl
  · exact .inl rfl

variable {s : Subscription R} {outcome : Except ShapeError ShapeResponse}

theorem step_batch_of_proceed (hf : c.feed = .fetching) (hr : c.subscription.receive outcome = (s,.proceed)) :
    c.step (.batch outcome) = ({ c with subscription := s } : Collection R).fetchNext.1 := by
  rw [step,act,Replica.receiveBatch_of_fetching hf,hr]

theorem step_batch_of_deliver (hf : c.feed = .fetching)
    (hr : c.subscription.receive outcome = (s,.deliver e)) :
    c.step (.batch outcome) = ({ ({ c with subscription := s } : Collection R).apply e |>.1 with
      position := s.position } : Collection R).fetchNext.1 := by
  rw [step,act,Replica.receiveBatch_of_fetching hf,hr]

theorem step_batch_of_failed (hf : c.feed = .fetching) {x : ShapeError}
    (hr : c.subscription.receive outcome = (s,.failed x)) : c.step (.batch outcome) =
      ({ c with subscription := s, feed := .stopped, status := .failed x.message } : Collection R).notify
        (.subscriptionFailed x.message) := by
  rw [step,act,Replica.receiveBatch_of_fetching hf,hr]

theorem step_batch_of_ne (hf : c.feed ≠ .fetching) (outcome : Except ShapeError ShapeResponse) :
    c.step (.batch outcome) = c := by
  rw [step,act,Replica.receiveBatch_of_ne hf]

def Marked (c : Collection R) : Prop := c.ready = true ∨ c.status = .live

private theorem marked_fetchNext {c : Collection R} (h : c.fetchNext.1.Marked) : c.Marked := by
  obtain ⟨delay,f,hc,_⟩ := Replica.fetchNext_eq c
  rw [hc] at h
  exact h

/-- What the stream has to say makes a collection live and ready. -/
theorem marked_of_news (h : c.delivered? o = some e) (hn : e.isNews) :
    (c.step o).ready = true ∧ (c.step o).status = .live := by
  obtain ⟨outcome,rfl,hf,hr⟩ := delivered?_eq_some.mp h
  rw [step_batch_of_deliver hf (Prod.ext rfl hr)]
  obtain ⟨delay,f,hnext,_⟩ := Replica.fetchNext_eq
    ({ ({ c with subscription := (c.subscription.receive outcome).1 } : Collection R).apply e |>.1 with
      position := (c.subscription.receive outcome).1.position } : Collection R)
  rw [hnext]
  cases e with
  | snapshot rows resync | changes cs | upToDate => exact ⟨rfl,rfl⟩
  | reconnecting n delay reason => cases hn

private theorem news_of_marked (h : (c.step o).Marked) :
    c.Marked ∨ ∃ e, c.delivered? o = some e ∧ e.isNews := by
  cases o with
  | rows answer =>
    left
    by_cases hf : c.feed = .seeding
    · cases answer with
      | ok rows =>
        rw [step_rows_ok hf] at h
        exact marked_fetchNext (c := { c with desk := c.desk.seed rows }) h
      | error x =>
        rw [step_rows_error hf] at h
        exact marked_fetchNext h
    · rw [step_rows_of_ne hf] at h
      exact h
  | awaken =>
    left
    rcases step_awaken c with hs | ⟨_,hs⟩ <;> rw [hs] at h <;> exact h
  | desk a ha => exact .inl h
  | close =>
    left
    rcases h with h | h
    · exact .inl h
    · cases h
  | batch outcome =>
    by_cases hf : c.feed = .fetching
    · rcases hr : c.subscription.receive outcome with ⟨s,_ | e | x⟩
      · rw [step_batch_of_proceed hf hr] at h
        exact .inl (marked_fetchNext (c := { c with subscription := s }) h)
      · have hdelivered : c.delivered? (.batch outcome) = some e := by
          rw [delivered?_eq_some]
          exact ⟨outcome,rfl,hf,by rw [hr]⟩
        cases e with
        | snapshot rows resync | changes cs | upToDate => exact .inr ⟨_,hdelivered,rfl⟩
        | reconnecting n delay reason =>
          rw [step_batch_of_deliver hf hr] at h
          rcases marked_fetchNext h with h | h
          · exact .inl (.inl h)
          · cases h
      · rw [step_batch_of_failed hf hr] at h
        rcases h with h | h
        · exact .inl (.inl h)
        · cases h
    · rw [step_batch_of_ne hf] at h
      exact .inl h

private theorem image_step (h : (c.step o).subscription.image = none) : c.subscription.image = none ∨
    ∃ rows resync, c.delivered? o = some (.snapshot rows resync) := by
  cases o with
  | rows answer =>
    left
    by_cases hf : c.feed = .seeding
    · cases answer with
      | ok rows =>
        rw [step_rows_ok hf,image_fetchNext] at h
        exact h
      | error x =>
        rw [step_rows_error hf,image_fetchNext] at h
        exact h
    · rw [step_rows_of_ne hf] at h
      exact h
  | awaken =>
    left
    rcases step_awaken c with hs | ⟨_,hs⟩ <;> rw [hs] at h <;> exact h
  | desk a ha | close => exact .inl h
  | batch outcome =>
    by_cases hf : c.feed = .fetching
    · have hreceive : (c.subscription.receive outcome).1.image = none := by
        rcases hr : c.subscription.receive outcome with ⟨s,_ | e | x⟩
        · rw [step_batch_of_proceed hf hr,image_fetchNext] at h
          exact h
        · rw [step_batch_of_deliver hf hr,image_fetchNext] at h
          cases e <;> exact h
        · rw [step_batch_of_failed hf hr] at h
          exact h
      refine (Subscription.image_receive hreceive).imp_right ?_
      rintro ⟨rows,resync,hr⟩
      exact ⟨rows,resync,delivered?_eq_some.mpr ⟨outcome,rfl,hf,hr⟩⟩
    · rw [step_batch_of_ne hf] at h
      exact .inl h

private theorem seeding_step (hf : c.feed = .seeding) :
    (c.step o).feed = .seeding ∨ (c.step o).feed = .stopped ∨ ∃ answer, o = .rows answer := by
  cases o with
  | rows answer => exact .inr (.inr ⟨answer,rfl⟩)
  | batch outcome =>
    left
    rw [step_batch_of_ne (by rw [hf]; nofun)]
    exact hf
  | awaken =>
    left
    rcases step_awaken c with hs | ⟨⟨since,deadline,hsleep⟩,_⟩
    · rw [hs]
      exact hf
    · cases hf.symm.trans hsleep
  | desk a ha => exact .inl hf
  | close => exact .inr (.inl rfl)

theorem stopped_step (hf : c.feed = .stopped) (o : Occasion R) : (c.step o).feed = .stopped := by
  cases o with
  | rows answer =>
    rw [step_rows_of_ne (by rw [hf]; nofun)]
    exact hf
  | batch outcome =>
    rw [step_batch_of_ne (by rw [hf]; nofun)]
    exact hf
  | awaken =>
    rcases step_awaken c with hs | ⟨⟨since,deadline,hsleep⟩,_⟩
    · rw [hs]
      exact hf
    · cases hf.symm.trans hsleep
  | desk a ha => exact hf
  | close => rfl

/-! ### Runs -/

def opened (projectId : Int64) (options : CollectionOptions) (resume : Option Position) : Collection R :=
  (start projectId options resume).1

private theorem not_marked_opened (projectId : Int64) (options : CollectionOptions) (resume : Option Position) :
    ¬ (opened projectId options resume : Collection R).Marked := by
  rw [opened,start.eq_def]
  dsimp only
  split
  · rintro (h | h) <;> cases h
  · intro h
    rcases marked_fetchNext h with h | h <;> cases h

omit [Row R] in
private theorem ready_of_readiness (h : c.readiness = some (.ok ())) : c.ready = true := by
  rw [readiness] at h
  split at h
  · next hr => exact (Bool.and_eq_true_iff.mp hr).1
  · split at h <;> cases h

private theorem exists_news {projectId : Int64} {options : CollectionOptions} {resume : Option Position}
    {os : List (Occasion R)} (h : ((opened projectId options resume : Collection R).after os).readiness =
        some (.ok ()) ∨ ((opened projectId options resume : Collection R).after os).status = .live) :
    ∃ u o v e, os = u ++ o::v ∧
      ((opened projectId options resume : Collection R).after u).delivered? o = some e ∧ e.isNews := by
  have hmarked : ((opened projectId options resume : Collection R).after os).Marked :=
    h.imp_left ready_of_readiness
  obtain hstart | ⟨u,o,v,hsplit,hbefore,hafter⟩ := exists_turn Marked hmarked
  · exact absurd hstart (not_marked_opened projectId options resume)
  · obtain ⟨e,hd,hnews⟩ := (news_of_marked hafter).resolve_left hbefore
    exact ⟨u,o,v,e,hsplit,hd,hnews⟩

/-- A complete image is written to the store: one that the stream delivers, or, in a collection that goes on
from a position, the rows that it asked for at the start. -/
inductive Imaging (resume : Option Position) (c : Collection R) : Occasion R → Prop where
  | image {outcome rows resync} (hd : c.delivered? (.batch outcome) = some (.snapshot rows resync))
      (hdesk : (c.step (.batch outcome)).desk = (c.desk.snapshot rows resync).1) :
      Imaging resume c (.batch outcome)
  | rows {rows} (hp : resume.isSome) (hf : c.feed = .seeding)
      (hdesk : (c.step (.rows (.ok rows))).desk = c.desk.seed rows) : Imaging resume c (.rows (.ok rows))

def Imaged (resume : Option Position) (c : Collection R) (os : List (Occasion R)) : Prop :=
  ∃ u o v, os = u ++ o::v ∧ Imaging resume (c.after u) o

/-- The stream tells of changes, or that there are none. -/
def Tells (c : Collection R) (o : Occasion R) : Prop :=
  (∃ cs, c.delivered? o = some (.changes cs)) ∨ c.delivered? o = some .upToDate

/-- Whenever the collection is ready, or calls itself live, it has had a complete image. -/
def CompleteWhenReady (projectId : Int64) (options : CollectionOptions) (resume : Option Position)
    (os : List (Occasion R)) : Prop :=
  ∀ x, x <+: os → ((opened projectId options resume : Collection R).after x).readiness = some (.ok ()) ∨
      ((opened projectId options resume : Collection R).after x).status = .live →
    Imaged resume (opened projectId options resume : Collection R) x

/-- A collection goes on from a position, the rows that it asks for do not come, and the stream tells it
something before any image. -/
def ToldWithoutRows (projectId : Int64) (options : CollectionOptions) (resume : Option Position)
    (os : List (Occasion R)) : Prop :=
  resume.isSome ∧ ∃ u x v o w, os = (u ++ .rows (.error x)::v) ++ o::w ∧
    ((opened projectId options resume : Collection R).after u).feed = .seeding ∧
    ((opened projectId options resume : Collection R).after (u ++ .rows (.error x)::v)).Tells o ∧
    ¬ Imaged resume (opened projectId options resume : Collection R) (u ++ .rows (.error x)::v)

variable {resume : Option Position}

private theorem imaging_of_snapshot {rows : List R} {resync : Bool}
    (h : c.delivered? o = some (.snapshot rows resync)) : Imaging resume c o := by
  obtain ⟨outcome,rfl,hf,hr⟩ := delivered?_eq_some.mp h
  refine .image h ?_
  rw [step_batch_of_deliver hf (Prod.ext rfl hr),desk_fetchNext]
  rfl

private theorem imaging_of_rows {rows : List R} (hp : resume.isSome) (hf : c.feed = .seeding) :
    Imaging resume c (.rows (.ok rows)) := by
  refine .rows hp hf ?_
  rw [step_rows_ok hf,desk_fetchNext]

private theorem not_imaging_of_tells (h : c.Tells o) : ¬ Imaging resume c o := by
  intro hi
  cases hi with
  | image hd _ =>
    rcases h with ⟨cs,h⟩ | h
    · cases hd.symm.trans h
    · cases hd.symm.trans h
  | rows _ _ _ => rcases h with ⟨cs,h⟩ | h <;> cases h

theorem Imaged.append {os : List (Occasion R)} (h : Imaged resume c os) (rest : List (Occasion R)) :
    Imaged resume c (os ++ rest) := by
  obtain ⟨u,o,v,rfl,hi⟩ := h
  exact ⟨u,o,v ++ rest,by simp,hi⟩

private theorem imaged_snoc {os : List (Occasion R)} :
    Imaged resume c (os ++ [o]) ↔ Imaged resume c os ∨ Imaging resume (c.after os) o := by
  constructor
  · rintro ⟨u,o',v,hsplit,hi⟩
    rcases List.eq_nil_or_concat v with rfl | ⟨v,last,rfl⟩
    · obtain ⟨rfl,hlast⟩ := List.append_inj' hsplit rfl
      cases hlast
      exact .inr hi
    · rw [List.concat_eq_append,← List.cons_append,← List.append_assoc] at hsplit
      obtain ⟨rfl,-⟩ := List.append_inj' hsplit rfl
      exact .inl ⟨u,o',v,rfl,hi⟩
  · rintro (h | h)
    · exact h.append [o]
    · exact ⟨os,o,[],rfl,h⟩

/-- A collection that gathers an image stops to do so only when it has it. -/
theorem imaged_of_image {os : List (Occasion R)} (h : (c.after os).subscription.image = none) :
    c.subscription.image = none ∨ Imaged resume c os := by
  refine (exists_turn (fun c : Collection R => c.subscription.image = none) h).imp_right ?_
  rintro ⟨u,o,v,hsplit,hbefore,hafter⟩
  obtain ⟨rows,resync,hd⟩ := (image_step hafter).resolve_left hbefore
  exact ⟨u,o,v,hsplit,imaging_of_snapshot hd⟩

private theorem answered_of_feed {os : List (Occasion R)} (hf : c.feed = .seeding)
    (h : (c.after os).feed = .fetching) :
    ∃ u answer v, os = u ++ .rows answer::v ∧ (c.after u).feed = .seeding := by
  have hgoes : (c.after os).feed ≠ .seeding ∧ (c.after os).feed ≠ .stopped := by
    rw [h]
    exact ⟨nofun,nofun⟩
  obtain hstart | ⟨u,o,v,hsplit,hbefore,hafter⟩ :=
    exists_turn (fun c : Collection R => c.feed ≠ .seeding ∧ c.feed ≠ .stopped) hgoes
  · exact absurd hf hstart.1
  · by_cases hseeding : (c.after u).feed = .seeding
    · rcases seeding_step hseeding (o := o) with hs | hs | ⟨answer,rfl⟩
      · exact absurd hs hafter.1
      · exact absurd hs hafter.2
      · exact ⟨u,answer,v,hsplit,hseeding⟩
    · -- A feed that has ended does not begin again.
      have hstopped : (c.after u).feed = .stopped := by
        by_contra hne
        exact hbefore ⟨hseeding,hne⟩
      exact absurd (stopped_step hstopped o) hafter.2

/-- What is told without an image before is told to a collection that went on without its rows. -/
theorem rows_failed_of_tells {projectId : Int64} {options : CollectionOptions} {os : List (Occasion R)}
    (h : ((opened projectId options resume : Collection R).after os).Tells o)
    (hi : ¬ Imaged resume (opened projectId options resume : Collection R) os) :
    resume.isSome ∧ ∃ u x v, os = u ++ .rows (.error x)::v ∧
      ((opened projectId options resume : Collection R).after u).feed = .seeding := by
  obtain ⟨e,hd,hnews,hother⟩ : ∃ e, ((opened projectId options resume : Collection R).after os).delivered? o =
      some e ∧ e.isNews ∧ ∀ rows resync, e ≠ .snapshot rows resync := by
    rcases h with ⟨cs,h⟩ | h
    · exact ⟨_,h,rfl,nofun⟩
    · exact ⟨_,h,rfl,nofun⟩
  obtain ⟨outcome,rfl,hfetching,hr⟩ := delivered?_eq_some.mp hd
  have himage := (Subscription.image_of_news hr hnews).resolve_right
    fun ⟨rows,resync,h⟩ => hother rows resync h
  have hnone := (imaged_of_image himage).resolve_right hi
  cases resume with
  | none =>
    -- A collection without a position starts with an image to gather.
    exfalso
    rw [opened,start] at hnone
    split at hnone
    · cases hnone
    · rw [image_fetchNext] at hnone
      cases hnone
  | some p =>
    have hseeding : (opened projectId options (some p) : Collection R).feed = .seeding := by
      rw [opened,start,Option.isSome_some,Bool.or_true,if_pos rfl]
    obtain ⟨u,answer,v,rfl,hf⟩ := answered_of_feed hseeding hfetching
    cases answer with
    | ok rows => exact absurd ⟨u,_,v,rfl,imaging_of_rows rfl hf⟩ hi
    | error x => exact ⟨rfl,u,x,v,rfl,hf⟩

/-- A collection is ready too early exactly when it goes on from a position, the rows that it asks for do
not come, and the stream has something other than an image for it. -/
theorem completeWhenReady_iff (projectId : Int64) (options : CollectionOptions) (resume : Option Position)
    (os : List (Occasion R)) :
    CompleteWhenReady projectId options resume os ↔ ¬ ToldWithoutRows projectId options resume os := by
  constructor
  · rintro hcomplete ⟨_,u,x,v,o,w,rfl,_,htells,hi⟩
    have hprefix : (u ++ .rows (.error x)::v) ++ [o] <+: (u ++ .rows (.error x)::v) ++ o::w :=
      ⟨w,by simp⟩
    have hlive : ((opened projectId options resume : Collection R).after
        ((u ++ .rows (.error x)::v) ++ [o])).status = .live := by
      rw [after_snoc]
      rcases htells with ⟨cs,h⟩ | h
      · exact (marked_of_news h rfl).2
      · exact (marked_of_news h rfl).2
    rcases imaged_snoc.mp (hcomplete _ hprefix (.inr hlive)) with h | h
    · exact hi h
    · exact not_imaging_of_tells htells h
  · rintro htold x ⟨rest,rfl⟩ hready
    by_contra hi
    obtain ⟨u,o,v,e,rfl,hd,hnews⟩ := exists_news hready
    have hearlier : ¬ Imaged resume (opened projectId options resume : Collection R) u :=
      fun h => hi (h.append (o::v))
    have htells : ((opened projectId options resume : Collection R).after u).Tells o := by
      cases e with
      | snapshot rows resync => exact absurd ⟨u,o,v,rfl,imaging_of_snapshot hd⟩ hi
      | changes cs => exact .inl ⟨cs,hd⟩
      | upToDate => exact .inr hd
      | reconnecting n delay reason => cases hnews
    obtain ⟨hp,u',err,v',rfl,hf⟩ := rows_failed_of_tells htells hearlier
    exact htold ⟨hp,u',err,v',o,v ++ rest,by simp,hf,htells,hearlier⟩

def goingOn : Option Position := some ⟨⟨"a"⟩,.at 4 0⟩

/-- The stream has nothing that is newer. -/
def quiet : Occasion Entity := .batch (.ok (.batch ⟨⟨"a"⟩,.at 4 0,[.control .upToDate]⟩))

def rowsCome : List (Occasion Entity) := [.rows (.ok [.inState "E1" .ready]),quiet]

theorem completeWhenReady_rowsCome :
    ((opened 7 ⟨30000,.default,false,8⟩ goingOn).after rowsCome).readiness = some (.ok ()) ∧
      ((opened 7 ⟨30000,.default,false,8⟩ goingOn).after rowsCome).store.list = [.inState "E1" .ready] ∧
      CompleteWhenReady 7 ⟨30000,.default,false,8⟩ goingOn rowsCome := by
  refine ⟨by decide +kernel,by decide +kernel,
    (completeWhenReady_iff 7 ⟨30000,.default,false,8⟩ goingOn rowsCome).mpr ?_⟩
  rintro ⟨_,u,x,v,o,w,hsplit,_⟩
  have hlost : Occasion.rows (.error x) ∈ rowsCome := by simp [hsplit]
  simp [rowsCome,quiet] at hlost

def rowsLost : List (Occasion Entity) := [.rows (.error (.server 503 "maintenance")),quiet]

/-- The rows that exist at the position are missing, and the collection is ready all the same. -/
theorem not_completeWhenReady_rowsLost :
    ((opened 7 ⟨30000,.default,false,8⟩ goingOn).after rowsLost).readiness = some (.ok ()) ∧
      ((opened 7 ⟨30000,.default,false,8⟩ goingOn).after rowsLost).status = .live ∧
      ((opened 7 ⟨30000,.default,false,8⟩ goingOn).after rowsLost).store.list = [] ∧
      ¬ CompleteWhenReady 7 ⟨30000,.default,false,8⟩ goingOn rowsLost := by
  have hlive : ((opened 7 ⟨30000,.default,false,8⟩ goingOn).after rowsLost).status = .live := by
    decide +kernel
  have htells : ((opened 7 ⟨30000,.default,false,8⟩ goingOn).after
      [.rows (.error (.server 503 "maintenance"))]).Tells quiet := .inr (by decide +kernel)
  refine ⟨by decide +kernel,hlive,by decide +kernel,fun h => ?_⟩
  have himaged := h rowsLost (List.prefix_refl _) (.inr hlive)
  rw [rowsLost,← List.singleton_append,imaged_snoc,← List.nil_append [_],imaged_snoc] at himaged
  rcases himaged with (⟨u,o,v,hsplit,_⟩ | hfirst) | hsecond
  · simp at hsplit
  · cases hfirst
  · exact not_imaging_of_tells htells hsecond

end Collection
end FieldReplica
