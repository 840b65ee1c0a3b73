import FieldReplica.Proofs.Run
import FieldReplica.Proofs.Tracking

/-!
# Replication from end to end

A collection on which nobody writes, and a server whose logs grow while the collection asks for them.
Whenever the stream has delivered something, the store shows the rows of the log of the current handle up
to the offset that has been reached.
-/
namespace FieldReplica

/-- The event that a step delivers. -/
def Subscription.Step.event? {R : Type} : Step R → Option (ShapeEvent R)
  | .deliver e => some e
  | .proceed | .failed _ => none

/-- Whether an event has the server's word, and not only a failure. -/
def ShapeEvent.isNews {R : Type} : ShapeEvent R → Bool
  | .snapshot _ _ | .changes _ | .upToDate => true
  | .reconnecting _ _ _ => false

/-- A collection and the logs of its server. -/
structure Replica (R : Type) where
  collection : Collection R
  logs : ShapeHandle → ShapeLog

/-- What happens to a collection on which nobody writes. -/
inductive Move where
  /-- The logs grow. -/
  | grow (logs : ShapeHandle → ShapeLog)
  | pass (ms : Nat)
  /-- The wait before a request ends, if its time has come. -/
  | awaken
  | answer (x : Except ShapeError ShapeResponse)

namespace Replica

variable {R : Type} [Row R]

/-- A collection that starts with an image of its own. -/
def start (projectId : Int64) (options : CollectionOptions) (logs : ShapeHandle → ShapeLog) :
    Replica R :=
  ⟨(Collection.start projectId { options with seedFromSnapshot := false } none).1,logs⟩

def step (w : Replica R) : Move → Replica R
  | .grow logs => { w with logs }
  | .pass ms => { w with collection := { w.collection with desk := w.collection.desk.advance ms } }
  | .awaken => { w with collection := w.collection.awaken.1 }
  | .answer x => { w with collection := (w.collection.receiveBatch x).1 }

def after (w : Replica R) (ms : List Move) : Replica R := ms.foldl step w

/-- What a move may be: logs only grow, and a request is answered from them. -/
def Legal (w : Replica R) : Move → Prop
  | .grow logs => ∀ h, (logs h).Extends (w.logs h)
  | .answer x => w.collection.feed = .fetching → Answers w.logs w.collection.subscription.request x
  | .pass _ | .awaken => True

/-- Every move is legal when its turn comes. -/
def Lawful (w : Replica R) : List Move → Prop
  | [] => True
  | m::ms => w.Legal m ∧ (w.step m).Lawful ms

theorem after_append (w : Replica R) (ms ns : List Move) :
    w.after (ms ++ ns) = (w.after ms).after ns := List.foldl_append

theorem lawful_append {w : Replica R} {ms ns : List Move} :
    w.Lawful (ms ++ ns) ↔ w.Lawful ms ∧ (w.after ms).Lawful ns := by
  induction ms generalizing w with
  | nil => simp [Lawful,after]
  | cons m ms ih =>
    simp only [List.cons_append,Lawful,ih,and_assoc]
    rfl

/-- What an answer has the subscription deliver. -/
def delivered? (w : Replica R) (x : Except ShapeError ShapeResponse) : Option (ShapeEvent R) :=
  match w.collection.feed with
  | .fetching => (w.collection.subscription.receive x).2.event?
  | _ => none

/-- No mutation is pending, the subscription is on its log, and once it is live the store shows the rows
of the log up to the offset. -/
structure Follows (w : Replica R) : Prop where
  idle : ∀ k, w.collection.desk.record? k = none
  tracks : w.collection.subscription.Tracks w.logs
  shown : w.collection.subscription.image = none →
    w.collection.store.rows = w.collection.subscription.tracked w.logs
  going : w.collection.feed ≠ .stopped → w.collection.subscription.failure = none

/-! ### The store -/

private theorem applyAll_restore (rows : Table String R) {cs : List (RemoteChange R)}
    (h : ∀ c ∈ cs, FiledUnder c.key c.row) :
    Write.applyAll rows (cs.map fun c => .restore c.key c.row) =
      cs.foldl Subscription.Image.apply rows := by
  induction cs generalizing rows with
  | nil => rfl
  | cons c cs ih =>
    have hc : (Write.restore c.key c.row).apply rows = Subscription.Image.apply rows c := by
      rw [Subscription.Image.apply]
      cases hv : c.row with
      | none => rfl
      | some row =>
        have hk := h c List.mem_cons_self row hv
        simp only [Write.restore,Write.apply,hk]
    rw [List.map_cons,List.foldl_cons,← hc]
    exact ih _ fun c hc => h c (List.mem_cons_of_mem _ hc)

private theorem remote_of_idle {d : Desk R} (hd : ∀ k, d.record? k = none) {cs : List (RemoteChange R)}
    (h : ∀ c ∈ cs, FiledUnder c.key c.row) : (∀ k, (d.remote cs).1.record? k = none) ∧
      (d.remote cs).1.reconciler.store.rows =
        cs.foldl Subscription.Image.apply d.reconciler.store.rows := by
  have hall := Ledger.receiveAll_of_none hd cs
  constructor
  · intro k
    rw [Desk.record?,Desk.reconciler_remote]
    change (d.reconciler.ledger.receiveAll cs).ledger.pending.find? k = none
    rw [hall]
    exact hd k
  · rw [Desk.reconciler_remote,← applyAll_restore _ h]
    change Write.applyAll d.reconciler.store.rows (d.reconciler.ledger.receiveAll cs).writes = _
    rw [hall]

private theorem snapshot_of_idle {d : Desk R} (hd : ∀ k, d.record? k = none) (rows : List R) (resync : Bool) :
    (∀ k, (d.snapshot rows resync).1.record? k = none) ∧
      (d.snapshot rows resync).1.reconciler.store.rows = imageOf rows := by
  have hnone : ∀ k, (d.reconciler.ledger.rebase (imageOf rows)).pending.find? k = none := by
    intro k
    have hk : d.reconciler.ledger.pending.find? k = none := hd k
    rw [Ledger.find?_rebase,hk]
    rfl
  constructor
  · intro k
    rw [Desk.record?,Desk.reconciler_snapshot,Reconciler.ledger_applySnapshot]
    exact hnone k
  · rw [Desk.reconciler_snapshot,Reconciler.rows_applySnapshot]
    apply Table.ext_find?
    intro k
    exact Reconciler.find?_imageWrites_of_none (filed_imageOf rows) (hnone k)

/-! ### One move -/

variable {w : Replica R}

/-- Beginning the next request changes the feed and the wait only, and stops the feed of a subscription
that has failed. -/
theorem fetchNext_eq (c : Collection R) : ∃ delay f,
    c.fetchNext.1 = { c with subscription := { c.subscription with delay := delay }, feed := f } ∧
      f ≠ .seeding ∧ (f ≠ .stopped → c.subscription.failure = none) := by
  rw [Collection.fetchNext]
  rcases c.subscription.begin_cases with ⟨e,hb⟩ | ⟨hgoing,hb⟩
  · rw [hb]
    exact ⟨c.subscription.delay,.stopped,rfl,nofun,fun h => absurd rfl h⟩
  · rw [hb]
    cases c.subscription.delay with
    | none => exact ⟨none,.fetching,rfl,nofun,fun _ => hgoing⟩
    | some wait =>
      exact ⟨none,.sleeping c.desk.now (c.desk.now + wait.millis),rfl,nofun,fun _ => hgoing⟩

/-- The feed goes on from where it stands. -/
theorem follows_fetchNext {c : Collection R} {logs : ShapeHandle → ShapeLog}
    (hidle : ∀ k, c.desk.record? k = none) (ht : c.subscription.Tracks logs)
    (hs : c.subscription.image = none → c.store.rows = c.subscription.tracked logs) :
    Follows ⟨c.fetchNext.1,logs⟩ := by
  obtain ⟨delay,f,hc,_,hgoing⟩ := fetchNext_eq c
  rw [hc]
  exact ⟨hidle,⟨ht.unplaced,ht.reached,ht.gathered⟩,hs,hgoing⟩

private theorem fetchNext_place (c : Collection R) :
    c.fetchNext.1.subscription.phase = c.subscription.phase ∧
      c.fetchNext.1.subscription.position = c.subscription.position ∧
      c.fetchNext.1.position = c.position := by
  obtain ⟨delay,f,hc,_⟩ := fetchNext_eq c
  rw [hc]
  exact ⟨rfl,rfl,rfl⟩

private theorem follows_start (projectId : Int64) (options : CollectionOptions)
    (logs : ShapeHandle → ShapeLog) : (start projectId options logs : Replica R).Follows := by
  refine ⟨fun k => rfl,⟨fun _ => ⟨rfl,rfl⟩,nofun,fun image hi => ?_⟩,nofun,fun _ => rfl⟩
  cases hi
  rfl

private theorem follows_grow {logs : ShapeHandle → ShapeLog} (hw : w.Follows) (hl : w.Legal (.grow logs)) :
    (w.step (.grow logs)).Follows := by
  have ht : w.collection.subscription.tracked logs = w.collection.subscription.tracked w.logs := by
    rw [Subscription.tracked,Subscription.tracked]
    cases hh : w.collection.subscription.handle with
    | none => rfl
    | some h => exact congrArg replay (ShapeLog.upTo_extends (hl h) (hw.tracks.reached h hh))
  refine ⟨hw.idle,⟨hw.tracks.unplaced,fun h hh => ?_,fun image hi => ?_⟩,fun hi => ?_,hw.going⟩
  · have hle := hw.tracks.reached h hh
    have hgrow := (hl h).1
    rw [LogOffset.le_iff] at hle hgrow ⊢
    exact Nat.le_trans hle hgrow
  · exact (hw.tracks.gathered image hi).trans ht.symm
  · exact (hw.shown hi).trans ht.symm

private theorem follows_awaken (hw : w.Follows) : (w.step .awaken).Follows := by
  rw [step,Collection.awaken]
  split
  · next since deadline hf =>
    split
    · exact ⟨hw.idle,hw.tracks,hw.shown,fun _ => hw.going (by rw [hf]; nofun)⟩
    · exact hw
  · exact hw

private theorem apply_conveys {c : Collection R} {s : Subscription R} {logs : ShapeHandle → ShapeLog}
    {e : ShapeEvent R} (hidle : ∀ k, c.desk.record? k = none)
    (hs : c.subscription.image = none → c.store.rows = c.subscription.tracked logs)
    (he : Subscription.Conveys logs c.subscription s (.deliver e)) :
    (∀ k, (({ c with subscription := s }).apply e).1.desk.record? k = none) ∧
      (s.image = none → (({ c with subscription := s }).apply e).1.store.rows = s.tracked logs) ∧
      (e.isNews → s.image = none) ∧ (({ c with subscription := s }).apply e).1.subscription = s := by
  cases he with
  | reconnecting hi ht =>
    refine ⟨hidle,fun hn => ?_,nofun,rfl⟩
    rw [ht]
    exact hs (hi.symm.trans hn)
  | upToDate hn hi ht =>
    refine ⟨hidle,fun _ => ?_,fun _ => hn,rfl⟩
    rw [ht]
    exact hs hi
  | changes hn hi hf ht =>
    obtain ⟨hidle',hrows⟩ := remote_of_idle hidle hf
    refine ⟨hidle',fun _ => ?_,fun _ => hn,rfl⟩
    rw [ht,← hs hi]
    exact hrows
  | snapshot hn ht =>
    next rows resync =>
    obtain ⟨hidle',hrows⟩ := snapshot_of_idle hidle rows resync
    refine ⟨hidle',fun _ => ?_,fun _ => hn,rfl⟩
    rw [← ht]
    exact hrows

/-- What an answer does to a collection that waits for one. -/
theorem receiveBatch_of_fetching {c : Collection R} (hf : c.feed = .fetching)
    (x : Except ShapeError ShapeResponse) : c.receiveBatch x =
      match c.subscription.receive x with
      | (s,.proceed) => { c with subscription := s }.fetchNext
      | (s,.deliver e) =>
        (({ ({ c with subscription := s }.apply e).1 with position := s.position }.fetchNext).1,
          ({ c with subscription := s }.apply e).2 ++
            ({ ({ c with subscription := s }.apply e).1 with position := s.position }.fetchNext).2)
      | (s,.failed e) =>
        ({ c with subscription := s, feed := .stopped, status := .failed e.message }.notify
          (.subscriptionFailed e.message),[]) := by
  rw [Collection.receiveBatch]
  split
  · rfl
  · next h => exact absurd hf h

theorem receiveBatch_of_ne {c : Collection R} (hf : c.feed ≠ .fetching)
    (x : Except ShapeError ShapeResponse) : c.receiveBatch x = (c,[]) := by
  rw [Collection.receiveBatch]
  split
  · next h => exact absurd h hf
  · rfl

theorem delivered?_eq_some {x : Except ShapeError ShapeResponse} {e : ShapeEvent R} :
    w.delivered? x = some e ↔ w.collection.feed = .fetching ∧
      (w.collection.subscription.receive x).2 = .deliver e := by
  rw [delivered?]
  split
  · next hf => cases (w.collection.subscription.receive x).2 <;> simp [Subscription.Step.event?,hf]
  · next hf => exact ⟨nofun,fun h => absurd h.1 hf⟩

private theorem follows_answer {x : Except ShapeError ShapeResponse} (hw : w.Follows)
    (hl : w.Legal (.answer x)) : (w.step (.answer x)).Follows := by
  change Follows ⟨(w.collection.receiveBatch x).1,w.logs⟩
  by_cases hf : w.collection.feed = .fetching
  · obtain ⟨ht,hc⟩ := Subscription.receive_conveys hw.tracks (hl hf)
    rw [receiveBatch_of_fetching hf]
    rcases hr : w.collection.subscription.receive x with ⟨s,_ | e | e⟩ <;> rw [hr] at ht hc
    · cases hc with
      | proceed h =>
        refine follows_fetchNext hw.idle ht fun hi => ?_
        rw [(h hi).2]
        exact hw.shown (h hi).1
    · obtain ⟨hidle,hrows,_,hsub⟩ := apply_conveys hw.idle hw.shown hc
      refine follows_fetchNext hidle ?_ fun hi => (hrows ?_).trans ?_
      · exact hsub ▸ ht
      · exact hsub ▸ hi
      · exact hsub ▸ rfl
    · cases hc with
      | failed hi hrows =>
        refine ⟨hw.idle,ht,fun hn => ?_,fun h => absurd rfl h⟩
        exact (hw.shown (hi.symm.trans hn)).trans hrows.symm
  · rw [receiveBatch_of_ne hf]
    exact hw

/-- Once there was news, the subscription is live and its position is the one that is shown. -/
theorem live_of_news {x : Except ShapeError ShapeResponse} (hw : w.Follows) (hl : w.Legal (.answer x))
    {e : ShapeEvent R} (he : w.delivered? x = some e) (hn : e.isNews) :
    (w.step (.answer x)).collection.subscription.phase = .live ∧
      (w.step (.answer x)).collection.position =
        (w.step (.answer x)).collection.subscription.position := by
  obtain ⟨hf,he⟩ := delivered?_eq_some.mp he
  obtain ⟨_,hc⟩ := Subscription.receive_conveys hw.tracks (hl hf)
  have hgoing : w.collection.subscription.failure = none := hw.going (by rw [hf]; nofun)
  have hfailure := Subscription.failure_receive w.collection.subscription x
  rw [hgoing] at hfailure
  change (w.collection.receiveBatch x).1.subscription.phase = _ ∧
    (w.collection.receiveBatch x).1.position = (w.collection.receiveBatch x).1.subscription.position
  rw [receiveBatch_of_fetching hf]
  rcases hr : w.collection.subscription.receive x with ⟨s,st⟩
  rw [hr] at hc he hfailure
  obtain rfl : st = .deliver e := he
  obtain ⟨_,_,hnews,hsub⟩ := apply_conveys hw.idle hw.shown hc
  have hlive : s.phase = .live := by
    have hfail : s.failure = none := hfailure.resolve_left nofun
    have himage : s.image = none := hnews hn
    simp [Subscription.phase,hfail,himage]
  dsimp only
  generalize ({ w.collection with subscription := s }.apply e).1 = c at hsub ⊢
  subst hsub
  obtain ⟨hphase,hposition,hheld⟩ := fetchNext_place { c with position := c.subscription.position }
  exact ⟨hphase.trans hlive,hheld.trans hposition.symm⟩

theorem follows_after {ms : List Move} (hw : w.Follows) (hl : w.Lawful ms) : (w.after ms).Follows := by
  induction ms generalizing w with
  | nil => exact hw
  | cons m ms ih =>
    refine ih ?_ hl.2
    cases m with
    | grow logs => exact follows_grow hw hl.1
    | pass t => exact ⟨hw.idle,hw.tracks,hw.shown,hw.going⟩
    | awaken => exact follows_awaken hw
    | answer x => exact follows_answer hw hl.1

/-- Whenever news has been delivered, the rows are those of the log of the current handle up to the
offset that has been reached, and the position says so. -/
theorem rows_eq_replay_after_news (projectId : Int64) (options : CollectionOptions)
    (logs : ShapeHandle → ShapeLog) (ms : List Move) (x : Except ShapeError ShapeResponse)
    (e : ShapeEvent R) (hl : (start projectId options logs : Replica R).Lawful (ms ++ [.answer x]))
    (he : ((start projectId options logs : Replica R).after ms).delivered? x = some e)
    (hn : e.isNews) :
    let w := (start projectId options logs : Replica R).after (ms ++ [.answer x])
    ∃ h, w.collection.subscription.handle = some h ∧
      w.collection.position = some ⟨h,w.collection.subscription.offset⟩ ∧
      w.collection.store.rows = replay ((w.logs h).upTo w.collection.subscription.offset) := by
  intro w
  have hsplit := lawful_append.mp hl
  have hbefore := follows_after (follows_start projectId options logs) hsplit.1
  obtain ⟨hlive,hposition⟩ := live_of_news hbefore hsplit.2.1 he hn
  have hw : w.Follows := follows_after (follows_start projectId options logs) hl
  have hwe : w = ((start projectId options logs).after ms).step (.answer x) := after_append _ _ _
  rw [← hwe] at hlive hposition
  have himage : w.collection.subscription.image = none := by
    rw [Subscription.phase] at hlive
    cases hi : w.collection.subscription.image with
    | none => rfl
    | some image => rw [hi] at hlive; split at hlive <;> cases hlive
  cases hh : w.collection.subscription.handle with
  | none =>
    have := (hw.tracks.unplaced hh).2
    rw [himage] at this
    cases this
  | some h =>
    refine ⟨h,rfl,?_,?_⟩
    · rw [hposition,Subscription.position,if_pos hlive,hh]
      rfl
    · rw [hw.shown himage,Subscription.tracked_of_handle hh]

/-- A record that puts a feature in a state. -/
def featureRecord (tx op : UInt64) (status : EntityStatus) : LogRecord :=
  ⟨tx,op,⟨"E1",(Row.schema (R := Entity)).encode (.inState "E1" status),⟨.update,[]⟩⟩⟩

/-- A log whose second record holds no row. -/
def youngLog : ShapeLog :=
  ⟨[featureRecord 1 0 .ready,⟨1,1,⟨"E2",.null,⟨.insert,[]⟩⟩⟩],.at 1 1,by decide,by decide⟩

def grownLog : ShapeLog :=
  ⟨youngLog.records ++ [featureRecord 2 0 .openedInOdk],.at 2 0,by decide,by decide⟩

def otherLog : ShapeLog := ⟨[featureRecord 5 0 .validated],.at 5 0,by decide,by decide⟩

/-- The logs of two shapes, of which one is the given one. -/
def shapeLogs (l : ShapeLog) (h : ShapeHandle) : ShapeLog := if h = ⟨"a"⟩ then l else otherLog

/-- A page of two, a live change, a replay, a failure and a shape that takes the place of another. -/
def changeover : List Move := [
  .answer (.ok (.batch ⟨⟨"a"⟩,.at 1 0,[.change (featureRecord 1 0 .ready).message]⟩)),
  .answer (.ok (.batch ⟨⟨"a"⟩,.at 1 1,[.change ⟨"E2",.null,⟨.insert,[]⟩⟩,.control .upToDate]⟩)),
  .grow (shapeLogs grownLog),
  .answer (.ok (.batch ⟨⟨"a"⟩,.at 2 0,[.change (featureRecord 2 0 .openedInOdk).message]⟩)),
  .answer (.ok (.batch ⟨⟨"a"⟩,.at 1 0,[.change (featureRecord 1 0 .ready).message]⟩)),
  .answer (.error (.transient "reset")),
  .pass 250,
  .awaken,
  .answer (.ok (.batch ⟨⟨"b"⟩,.at 5 0,[.change (featureRecord 5 0 .validated).message]⟩))]

/-- The whole log of the other shape. -/
def otherPage : Except ShapeError ShapeResponse :=
  .ok (.batch ⟨⟨"b"⟩,.at 5 0,[.change (featureRecord 5 0 .validated).message,.control .upToDate]⟩)

/-- A collection of the first shape. -/
def twoShapes : Replica Entity := start 7 ⟨30000,.default,false,8⟩ (shapeLogs youngLog)

theorem rows_eq_replay_changeover :
    twoShapes.Lawful (changeover ++ [.answer otherPage]) ∧
      (twoShapes.after changeover).collection.store.get? "E1" = some (.inState "E1" .openedInOdk) ∧
      (twoShapes.after changeover).delivered? otherPage = some (.snapshot [.inState "E1" .validated] true) ∧
      (twoShapes.after (changeover ++ [.answer otherPage])).collection.store.rows =
        Table.empty.insert "E1" (.inState "E1" .validated) := by
  have hl : twoShapes.Lawful (changeover ++ [.answer otherPage]) := by
    refine ⟨fun _ => .page ?_ ?_ ?_ ?_,fun _ => .page ?_ ?_ ?_ ?_,fun h => ?_,
      fun _ => .page ?_ ?_ ?_ ?_,fun _ => .replay .beforeStart ?_ ?_ ?_ ?_,fun _ => .failure ?_,
      trivial,trivial,fun _ => .foreign ⟨"a"⟩ ?_ ?_ ?_,fun _ => .page ?_ ?_ ?_ ?_,trivial⟩
    case refine_9 =>
      change (if h = ⟨"a"⟩ then grownLog else otherLog).Extends
        (if h = ⟨"a"⟩ then youngLog else otherLog)
      split
      · exact ⟨by decide,_,rfl,by decide⟩
      · exact ShapeLog.extends_refl otherLog
    all_goals decide +kernel
  have he : (twoShapes.after changeover).delivered? otherPage =
      some (.snapshot [.inState "E1" .validated] true) := by decide +kernel
  obtain ⟨h,hh,_,hrows⟩ := rows_eq_replay_after_news (R := Entity) 7 ⟨30000,.default,false,8⟩
    (shapeLogs youngLog) changeover otherPage (.snapshot [.inState "E1" .validated] true) hl he rfl
  have hb : (twoShapes.after (changeover ++ [.answer otherPage])).collection.subscription.handle =
      some ⟨"b"⟩ := by decide +kernel
  have hlog : replay (((twoShapes.after (changeover ++ [.answer otherPage])).logs ⟨"b"⟩).upTo
      (twoShapes.after (changeover ++ [.answer otherPage])).collection.subscription.offset) =
        Table.empty.insert "E1" (Entity.inState "E1" .validated) := by decide +kernel
  refine ⟨hl,by decide +kernel,he,?_⟩
  rw [← twoShapes,hb] at hh
  obtain rfl := Option.some.inj hh
  rw [← twoShapes] at hrows
  exact hrows.trans hlog

end Replica
end FieldReplica
