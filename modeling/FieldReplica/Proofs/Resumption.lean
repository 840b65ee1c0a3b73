import FieldReplica.Proofs.Overlay
import FieldReplica.Proofs.Readiness

/-!
# Going on from a place

A collection that goes on from a place of a log asks for the table's rows first, which may be those of a
later place, and then follows the log. What it has in the end for a key is the last value that a record after
the place gives the key, and else the row that came at the start. A row that comes while a mutation is pending
on its key is overlooked: the record of the mutation keeps nothing of it. So the collection ends with the
server's table exactly if the log has a later value for every key whose row was overlooked.
-/
namespace FieldReplica

variable {R : Type} [Row R]

/-! ### The values of a log -/

namespace ShapeLog

private theorem between_later (l : ShapeLog) {a o : LogOffset} (h : a.le o) (b : LogOffset) :
    l.between a (Subscription.later o b) = l.between a o ++ l.between o b := by
  have hsplit : ∀ x, l.between a x = (l.upTo x).filter fun r => !r.offset.le a := by
    intro x
    rw [between,upTo,List.filter_filter]
  have hall : (l.between o b).filter (fun r => !r.offset.le a) = l.between o b := by
    rw [List.filter_eq_self]
    intro r hr
    have hro := (List.mem_filter.mp hr).2
    simp only [Bool.and_eq_true,Bool.not_eq_true',LogOffset.le_eq_false_iff] at hro ⊢
    rw [LogOffset.le_iff] at h
    omega
  rw [hsplit,upTo_later,List.filter_append,hall,← hsplit]

/-- The changes that the records after one offset, up to another one, tell of. -/
def changes (l : ShapeLog) (a b : LogOffset) : List (RemoteChange R) :=
  ((l.between a b).map (·.message)).filterMap Subscription.decodeChange

/-- The values that these changes give, each with its key. -/
def values (l : ShapeLog) (a b : LogOffset) : List (String × Option R) :=
  (l.changes a b).map fun c => (c.key,c.row)

/-- Whether a record after an offset tells of a key. -/
def Tells (l : ShapeLog) (R : Type) [Row R] (a : LogOffset) (key : String) : Prop :=
  ∃ r ∈ l.records, r.offset.le a = false ∧ ∃ c : RemoteChange R,
    Subscription.decodeChange r.message = some c ∧ c.key = key

private theorem values_later (l : ShapeLog) {a o : LogOffset} (h : a.le o) (b : LogOffset) :
    (l.values a (Subscription.later o b) : List (String × Option R)) = l.values a o ++ l.values o b := by
  rw [values,values,values,changes,between_later l h,List.map_append,List.filterMap_append,List.map_append]
  rfl

private theorem tells_of_mem_values {l : ShapeLog} {a b : LogOffset} {e : String × Option R}
    (h : e ∈ (l.values a b : List (String × Option R))) : l.Tells R a e.1 := by
  obtain ⟨c,hc,rfl⟩ := List.mem_map.mp h
  obtain ⟨m,hm,hdecode⟩ := List.mem_filterMap.mp hc
  obtain ⟨r,hr,rfl⟩ := List.mem_map.mp hm
  obtain ⟨hr,ho⟩ := List.mem_filter.mp hr
  rw [Bool.and_eq_true,Bool.not_eq_true'] at ho
  exact ⟨r,hr,ho.1,c,hdecode,rfl⟩

private theorem mem_values_of_tells {l : ShapeLog} {a b : LogOffset} (hall : ∀ r ∈ l.records, r.offset.le b)
    {key : String} (h : l.Tells R a key) : ∃ e ∈ (l.values a b : List (String × Option R)), e.1 = key := by
  obtain ⟨r,hr,ho,c,hdecode,hk⟩ := h
  have hmem : r ∈ l.between a b := by
    rw [between,List.mem_filter,ho,hall r hr]
    exact ⟨hr,rfl⟩
  have hc : c ∈ (l.changes a b : List (RemoteChange R)) :=
    List.mem_filterMap.mpr ⟨r.message,List.mem_map.mpr ⟨r,hmem,rfl⟩,hdecode⟩
  exact ⟨(c.key,c.row),List.mem_map.mpr ⟨c,hc,rfl⟩,hk⟩

/-- The rows at a later place of a log have the values that come after the earlier one. -/
theorem find?_replay_upTo (l : ShapeLog) {a b : LogOffset} (h : a.le b) (key : String) :
    (replay (l.upTo b) : Table String R).find? key =
      lastUnder key (l.values a b) ((replay (l.upTo a)).find? key) := by
  have hlater : Subscription.later a b = b := by rw [Subscription.later,if_pos h]
  rw [← hlater,upTo_later,replay_append,Subscription.foldl_play,Subscription.find?_foldl_apply,hlater]
  rfl

end ShapeLog

/-! ### What may happen -/

/-- Whether an outcome lets a subscription go on with the shape that it follows. -/
def GoesOn (h : ShapeHandle) : Except ShapeError ShapeResponse → Prop
  | .error _ => True
  | .ok .mustRefetch => False
  | .ok (.batch b) => b.handle = h ∧ .control .mustRefetch ∉ b.messages

/-- Whether an action is not about a mutation that waited too long for its transaction. -/
def Action.isPrompt : Action R → Bool
  | .expire _ | .read _ _ => false
  | _ => true

namespace Collection

/-- What may happen to a collection that goes on from a place of a log. The rows are those of the place or a
later one, and the stream goes on with the records of the log. Nothing is said of the mutations, but that none
waits too long. -/
def Legal (log : ShapeLog) (place : Position) (c : Collection R) : Occasion R → Prop
  | .rows answer => c.feed = .seeding ∧ ∃ rows s, answer = .ok rows ∧ place.offset.le s ∧
      imageOf rows = replay (log.upTo s)
  | .batch x => c.feed = .fetching ∧ Answers (fun _ => log) c.subscription.request x ∧
      GoesOn place.handle x
  | .awaken => True
  | .desk a _ => a.isPrompt = true
  | .close => False

/-- Everything that happens is legal when its turn comes. -/
def Lawful (log : ShapeLog) (place : Position) (c : Collection R) : List (Occasion R) → Prop
  | [] => True
  | o::os => c.Legal log place o ∧ (c.step o).Lawful log place os

/-- A row comes while a mutation is pending on its key. -/
def Overlooks (c : Collection R) (rows : List R) (key : String) : Prop :=
  (c.desk.record? key).isSome ∧ ∃ row ∈ rows, Row.key row = key

theorem lawful_append {log : ShapeLog} {place : Position} {c : Collection R} {os ps : List (Occasion R)} :
    c.Lawful log place (os ++ ps) ↔ c.Lawful log place os ∧ (c.after os).Lawful log place ps := by
  induction os generalizing c with
  | nil => simp [Lawful,after]
  | cons o os ih =>
    simp only [List.cons_append,Lawful,ih,and_assoc]
    rfl

/-- A collection on its way from a place: what is known of a key is the last value that the log has given it
since, over what was found at the start. -/
structure Resumes (log : ShapeLog) (place : Position) (found : String → Option R) (c : Collection R) :
    Prop where
  handle : c.subscription.handle = some place.handle
  image : c.subscription.image = none
  past : place.offset.le c.subscription.offset
  reached : c.subscription.offset.le log.reach
  unmoved : c.feed = .seeding → c.subscription.offset = place.offset
  overlaid : ∃ g, c.desk.reconciler.Overlaid g ∧
    ∀ key, g.given key = lastUnder key (log.values place.offset c.subscription.offset) (found key)

variable {log : ShapeLog} {place : Position} {found : String → Option R} {c : Collection R}

/-- A change of the wait, the feed and the status leaves all this as it is. -/
theorem Resumes.congr {c' : Collection R} (hc : c.Resumes log place found)
    (hh : c'.subscription.handle = c.subscription.handle) (hi : c'.subscription.image = c.subscription.image)
    (ho : c'.subscription.offset = c.subscription.offset) (hf : c'.feed = .seeding → c.feed = .seeding)
    (hr : c'.desk.reconciler.store.rows = c.desk.reconciler.store.rows)
    (hl : c'.desk.reconciler.ledger = c.desk.reconciler.ledger) : c'.Resumes log place found where
  handle := hh.trans hc.handle
  image := hi.trans hc.image
  past := ho ▸ hc.past
  reached := ho ▸ hc.reached
  unmoved h := ho.trans (hc.unmoved (hf h))
  overlaid := by
    obtain ⟨g,hg,hgiven⟩ := hc.overlaid
    refine ⟨g,?_,ho ▸ hgiven⟩
    rw [Reconciler.Overlaid,hr,hl]
    exact hg

private theorem feed_fetchNext (c : Collection R) : c.fetchNext.1.feed ≠ .seeding := by
  obtain ⟨delay,f,hnext,hf,_⟩ := Replica.fetchNext_eq c
  rw [hnext]
  exact hf

theorem Resumes.fetchNext (hc : c.Resumes log place found) : c.fetchNext.1.Resumes log place found := by
  obtain ⟨delay,f,hnext,hf,_⟩ := Replica.fetchNext_eq c
  rw [hnext]
  exact hc.congr rfl rfl rfl (fun h => absurd h hf) rfl rfl

/-! ### What happens to a write -/

private theorem resumes_desk (hc : c.Resumes log place found) {a : Action R} (ha : a.isLocal = true)
    (hp : a.isPrompt = true) : (c.step (.desk a ha)).Resumes log place found where
  handle := hc.handle
  image := hc.image
  past := hc.past
  reached := hc.reached
  unmoved := hc.unmoved
  overlaid := by
    obtain ⟨g,hg,hgiven⟩ := hc.overlaid
    have hfaithful : a.Faithful c.desk := by
      cases a with
      | read id answer => cases hp
      | remote cs | snapshot rows resync | seed rows | close => cases ha
      | stage fresh m | discard id | submit id | abort id | reply id answer | expire id | advance ms =>
        trivial
    have hsame : (g.after c.desk a).given = g.given := by
      cases a with
      | read id answer => cases hp
      | remote cs | snapshot rows resync | seed rows | close => cases ha
      | stage fresh m =>
        rw [Account.after]
        split <;> rfl
      | discard id | submit id | abort id | reply id answer | expire id | advance ms => rfl
    refine ⟨g.after c.desk a,Desk.overlaid_step hg hfaithful,?_⟩
    intro key
    rw [hsame]
    exact hgiven key

/-! ### What the stream says -/

/-- The log has gone on, and the desk has taken in what it says. -/
theorem Resumes.onward (hc : c.Resumes log place found) {c' : Collection R} {o : LogOffset}
    (hh : c'.subscription.handle = some place.handle) (hi : c'.subscription.image = none)
    (ho : c'.subscription.offset = Subscription.later c.subscription.offset o)
    (hr : (Subscription.later c.subscription.offset o).le log.reach) (hf : c'.feed ≠ .seeding)
    (hd : ∀ g, c.desk.reconciler.Overlaid g → ∃ g', c'.desk.reconciler.Overlaid g' ∧
      ∀ key, g'.given key = lastUnder key (log.values c.subscription.offset o) (g.given key)) :
    c'.Resumes log place found where
  handle := hh
  image := hi
  past := by
    have hpast := hc.past
    rw [ho,Subscription.later]
    rw [LogOffset.le_iff] at hpast ⊢
    split
    · next hle =>
      rw [LogOffset.le_iff] at hle
      omega
    · exact hpast
  reached := ho ▸ hr
  unmoved h := absurd h hf
  overlaid := by
    obtain ⟨g,hg,hgiven⟩ := hc.overlaid
    obtain ⟨g',hg',hnew⟩ := hd g hg
    refine ⟨g',hg',?_⟩
    intro key
    rw [hnew,hgiven,ho,ShapeLog.values_later log hc.past,lastUnder,lastUnder,lastUnder,List.foldl_append]

end Collection

namespace Subscription

variable {logs : ShapeHandle → ShapeLog} {s : Subscription R}

private theorem receive_error_cases (s : Subscription R) (e : ShapeError) : ∃ s', s'.handle = s.handle ∧
    s'.image = s.image ∧ s'.offset = s.offset ∧ (s.receive (.error e) = (s',.failed e) ∨
      ∃ n delay reason, s.receive (.error e) = (s',.deliver (.reconnecting n delay reason))) := by
  rw [receive]
  split
  · refine ⟨_,?_,?_,?_,.inl rfl⟩ <;> rfl
  · dsimp only
    split
    · refine ⟨_,?_,?_,?_,.inl rfl⟩ <;> rfl
    · refine ⟨_,?_,?_,?_,.inr ⟨_,_,_,rfl⟩⟩ <;> rfl

/-- A batch that goes on takes a live subscription to its end, and what it brings are the changes of the log
up to there. -/
theorem receive_live (hi : s.image = none) {b : ShapeBatch} (hb : s.Continues logs b) :
    ∃ s', s'.handle = some b.handle ∧ s'.image = none ∧ s'.offset = later s.offset b.offset ∧
      (s.receive (.ok (.batch b)) =
          (s',.deliver (.changes ((logs b.handle).changes s.offset b.offset))) ∨
        ((logs b.handle).changes s.offset b.offset : List (RemoteChange R)) = [] ∧
          (s.receive (.ok (.batch b)) = (s',.proceed) ∨
            s.receive (.ok (.batch b)) = (s',.deliver .upToDate))) := by
  have hown : ¬ (s.image.isNone && s.handle.any (· ≠ b.handle)) = true := by
    cases hh : s.handle with
    | none => simp
    | some h => simp [hb.own h hh]
  have hgo : ¬ (readMessages (R := R) (s.isReplay b.offset) b.messages).mustRefetch = true :=
    fun h => hb.plain ((readMessages_mustRefetch _ _).mp h)
  have hchanges : (readMessages (R := R) (s.isReplay b.offset) b.messages).changes =
      (logs b.handle).changes s.offset b.offset := by
    rw [readMessages_changes _ hb.plain,ShapeLog.changes]
    cases hd : s.isReplay b.offset with
    | false =>
      rw [← hb.records hd]
      rfl
    | true =>
      have hle : b.offset.le s.offset := by
        rw [isReplay,Bool.and_eq_true] at hd
        exact hd.2
      rw [ShapeLog.between_of_le _ hle]
      rfl
  rw [receive_batch,applyBatch,if_neg hown]
  dsimp only
  rw [isReplay] at hgo hchanges
  rw [isReplay,if_neg hgo,hi]
  dsimp only
  rw [← hchanges]
  split
  · exact ⟨_,rfl,rfl,rfl,.inl rfl⟩
  · next hnone =>
    have hnone := not_not.mp hnone
    split
    · exact ⟨_,rfl,rfl,rfl,.inr ⟨hnone,.inr rfl⟩⟩
    · exact ⟨_,rfl,rfl,rfl,.inr ⟨hnone,.inl rfl⟩⟩

end Subscription

namespace Collection

variable {log : ShapeLog} {place : Position} {found : String → Option R} {c : Collection R}

theorem Resumes.tracks (hc : c.Resumes log place found) :
    c.subscription.Tracks (fun _ => log) where
  unplaced h := by cases hc.handle.symm.trans h
  reached _ _ := hc.reached
  gathered image h := by cases hc.image.symm.trans h

private theorem overlaid_remote {d : Desk R} {g : Account R} (hg : d.reconciler.Overlaid g) (log : ShapeLog)
    (a b : LogOffset) : ∃ g', (d.remote (log.changes a b)).1.reconciler.Overlaid g' ∧
      ∀ key, g'.given key = lastUnder key (log.values a b) (g.given key) := by
  refine ⟨g.giveChanges (log.changes a b),Desk.overlaid_step (a := .remote (log.changes a b)) hg ?_,?_⟩
  · intro c hc
    obtain ⟨m,_,hm⟩ := List.mem_filterMap.mp hc
    exact Subscription.filed_decodeChange hm
  · intro key
    rfl

private theorem overlaid_of_no_changes {d : Desk R} {g : Account R} (hg : d.reconciler.Overlaid g)
    {log : ShapeLog} {a b : LogOffset} (hnone : (log.changes a b : List (RemoteChange R)) = []) :
    ∃ g', d.reconciler.Overlaid g' ∧ ∀ key, g'.given key = lastUnder key (log.values a b) (g.given key) := by
  refine ⟨g,hg,?_⟩
  intro key
  rw [ShapeLog.values,hnone]
  rfl

private theorem resumes_batch (hc : c.Resumes log place found) {x : Except ShapeError ShapeResponse}
    (hl : c.Legal log place (.batch x)) : (c.step (.batch x)).Resumes log place found := by
  obtain ⟨hf,hanswer,hgoes⟩ := hl
  rcases Subscription.answers_cases hc.tracks hanswer with ⟨e,rfl,_⟩ | rfl | ⟨b,rfl,hb⟩ | ⟨b,rfl,hb⟩
  · obtain ⟨s,hh,hi,ho,hr | ⟨n,delay,reason,hr⟩⟩ := Subscription.receive_error_cases c.subscription e
    · rw [step_batch_of_failed hf hr]
      exact hc.congr hh hi ho nofun rfl rfl
    · rw [step_batch_of_deliver hf hr]
      refine Resumes.fetchNext (hc.congr hh hi ho ?_ rfl rfl)
      exact fun h => h
  · exact hgoes.elim
  · exfalso
    rcases hb with hcontrol | ⟨_,h,hh,hn⟩
    · exact hgoes.2 hcontrol
    · exact hn ((Option.some.inj (hh.symm.trans hc.handle)).trans hgoes.1.symm)
  · obtain ⟨s,hh,hi,ho,hr⟩ := Subscription.receive_live hc.image hb
    rw [hgoes.1] at hh
    have hnot : c.feed ≠ .seeding := by simp [hf]
    rcases hr with hr | ⟨hnone,hr | hr⟩
    · rw [step_batch_of_deliver hf hr]
      refine Resumes.fetchNext (hc.onward hh hi ho hb.reach hnot ?_)
      intro g hg
      exact overlaid_remote hg log c.subscription.offset b.offset
    · rw [step_batch_of_proceed hf hr]
      refine Resumes.fetchNext (hc.onward hh hi ho hb.reach hnot ?_)
      intro g hg
      exact overlaid_of_no_changes hg hnone
    · rw [step_batch_of_deliver hf hr]
      refine Resumes.fetchNext (hc.onward hh hi ho hb.reach hnot ?_)
      intro g hg
      exact overlaid_of_no_changes hg hnone

private theorem resumes_awaken (hc : c.Resumes log place found) : (c.step .awaken).Resumes log place found := by
  rcases step_awaken c with hs | ⟨_,hs⟩
  · rw [hs]
    exact hc
  · rw [hs]
    exact hc.congr rfl rfl rfl nofun rfl rfl

/-- What a key has before the log goes on: the row that came for it, unless a mutation was pending. -/
def foundIn (c : Collection R) (rows : List R) (key : String) : Option R :=
  if (c.desk.record? key).isSome then none else (imageOf rows).find? key

private theorem resumes_rows (hc : c.Resumes log place fun _ => none) {rows : List R} (hf : c.feed = .seeding) :
    (c.step (.rows (.ok rows))).Resumes log place (c.foundIn rows) := by
  rw [step_rows_ok hf]
  refine Resumes.fetchNext ⟨hc.handle,hc.image,hc.past,hc.reached,hc.unmoved,?_⟩
  obtain ⟨g,hg,hgiven⟩ := hc.overlaid
  have hplace : c.subscription.offset = place.offset := hc.unmoved hf
  have hempty : (log.values place.offset c.subscription.offset : List (String × Option R)) = [] := by
    rw [hplace,ShapeLog.values,ShapeLog.changes,ShapeLog.between_of_le]
    · rfl
    · exact LogOffset.le_refl _
  refine ⟨g.after c.desk (.seed rows),Desk.overlaid_step hg trivial,?_⟩
  intro key
  have hbefore : g.given key = none := by
    rw [hgiven key,hempty]
    rfl
  rw [hempty,lastUnder_nil,foundIn,find?_imageOf,Account.after]
  dsimp only
  rw [hbefore]

/-! ### Runs -/

private theorem not_seeding_step (hf : c.feed ≠ .seeding) (o : Occasion R) : (c.step o).feed ≠ .seeding := by
  cases o with
  | rows answer =>
    rw [step_rows_of_ne hf]
    exact hf
  | batch x =>
    by_cases hb : c.feed = .fetching
    · rcases hr : c.subscription.receive x with ⟨s,_ | e | e⟩
      · rw [step_batch_of_proceed hb hr]
        exact feed_fetchNext _
      · rw [step_batch_of_deliver hb hr]
        exact feed_fetchNext _
      · rw [step_batch_of_failed hb hr]
        exact nofun
    · rw [step_batch_of_ne hb]
      exact hf
  | awaken =>
    rcases step_awaken c with hs | ⟨_,hs⟩
    · rw [hs]
      exact hf
    · rw [hs]
      exact nofun
  | desk a ha => exact hf
  | close => exact nofun

private theorem resumes_step (hc : c.Resumes log place found) {o : Occasion R} (hl : c.Legal log place o)
    (ho : ∀ answer, o ≠ .rows answer) : (c.step o).Resumes log place found := by
  cases o with
  | rows answer => exact absurd rfl (ho answer)
  | batch x => exact resumes_batch hc hl
  | awaken => exact resumes_awaken hc
  | desk a ha => exact resumes_desk hc ha hl
  | close => exact hl.elim

private theorem resumes_opened (projectId : Int64) (options : CollectionOptions) (hplace : place.offset.le log.reach) :
    (opened projectId options (some place) : Collection R).Resumes log place fun _ => none := by
  have hopened : (opened projectId options (some place) : Collection R) =
      ⟨projectId,.create options.notificationCapacity options.confirmationTimeout,
        .resume options.reconnect projectId place,.seeding,.connecting,false,some place⟩ := by
    rw [opened,start.eq_def]
    simp only [Option.isSome_some,Bool.or_true,if_true]
  have hrefl : place.offset.le place.offset = true := LogOffset.le_refl _
  rw [hopened]
  refine ⟨rfl,rfl,hrefl,hplace,fun _ => rfl,Account.blank,Desk.overlaid_create _ _,?_⟩
  intro key
  change none = lastUnder key (log.values place.offset place.offset) none
  rw [ShapeLog.values,ShapeLog.changes,ShapeLog.between_of_le log hrefl]
  rfl

private theorem not_seeding_after (hf : c.feed ≠ .seeding) (os : List (Occasion R)) :
    (c.after os).feed ≠ .seeding := by
  induction os generalizing c with
  | nil => exact hf
  | cons o os ih => exact ih (not_seeding_step hf o)

private theorem not_seeding_of_rows (hf : c.feed = .seeding) (rows : List R) :
    (c.step (.rows (.ok rows))).feed ≠ .seeding := by
  rw [step_rows_ok hf]
  exact feed_fetchNext _

/-- As long as a collection waits for the rows, it knows of no value. -/
theorem resumes_before_rows (hc : c.Resumes log place fun _ => none) {os : List (Occasion R)}
    (hl : c.Lawful log place os) (hf : (c.after os).feed = .seeding) :
    (c.after os).Resumes log place fun _ => none := by
  induction os generalizing c with
  | nil => exact hc
  | cons o os ih =>
    refine ih (resumes_step hc hl.1 ?_) hl.2 hf
    rintro answer rfl
    -- Once the rows have come, the collection never waits for them again.
    obtain ⟨hseeding,rows,s,rfl,_⟩ := hl.1
    exact not_seeding_after (not_seeding_of_rows hseeding rows) os hf

private theorem resumes_after_rows (hc : c.Resumes log place found) (hf : c.feed ≠ .seeding)
    {os : List (Occasion R)} (hl : c.Lawful log place os) : (c.after os).Resumes log place found := by
  induction os generalizing c with
  | nil => exact hc
  | cons o os ih =>
    have ho : ∀ answer, o ≠ .rows answer := by
      rintro answer rfl
      exact hf hl.1.1
    exact ih (resumes_step hc hl.1 ho) (not_seeding_step hf o) hl.2

/-! ### The end -/

/-- With no mutation pending, the store has what the log has given since, over what was found. -/
theorem Resumes.find?_store (hc : c.Resumes log place found) {key : String}
    (hidle : c.desk.record? key = none) : c.store.rows.find? key =
      lastUnder key (log.values place.offset c.subscription.offset) (found key) := by
  obtain ⟨g,hg,hgiven⟩ := hc.overlaid
  rw [← hgiven key]
  exact Overlay.settled hg key hidle

/-- The row that was found for a key is as good as the one at the place, unless it was overlooked and no
record tells of it. -/
theorem foundIn_agrees_iff {rows : List R} {s o : LogOffset} (hlater : place.offset.le s)
    (himage : imageOf rows = replay (log.upTo s)) (hall : ∀ r ∈ log.records, r.offset.le o) (key : String) :
    lastUnder key (log.values place.offset o) (c.foundIn rows key) =
        lastUnder key (log.values place.offset o) ((replay (log.upTo place.offset)).find? key) ↔
      (c.Overlooks rows key → log.Tells R place.offset key) := by
  by_cases ht : log.Tells R place.offset key
  · have hmem := ShapeLog.mem_values_of_tells (b := o) hall ht
    exact ⟨fun _ _ => ht,fun _ => lastUnder_of_mem hmem _ _⟩
  · have hquiet : ∀ b, ∀ e ∈ (log.values place.offset b : List (String × Option R)), e.1 ≠ key := by
      rintro b e he rfl
      exact ht (ShapeLog.tells_of_mem_values he)
    have hplace : (replay (log.upTo place.offset)).find? key = (imageOf rows).find? key := by
      rw [himage,ShapeLog.find?_replay_upTo log hlater,lastUnder_of_ne (hquiet s)]
    rw [lastUnder_of_ne (hquiet o),lastUnder_of_ne (hquiet o),hplace,foundIn]
    constructor
    · rintro h ⟨hpending,hrow⟩
      rw [if_pos hpending] at h
      exact absurd hrow (find?_imageOf_eq_none.mp h.symm)
    · intro h
      split
      · next hpending =>
        refine (find?_imageOf_eq_none.mpr ?_).symm
        exact fun hrow => ht (h ⟨hpending,hrow⟩)
      · rfl

omit [Row R] in
private theorem idle_of_keys {d : Desk R} (h : d.reconciler.ledger.pending.keys = []) (key : String) :
    d.record? key = none := by
  have hk : key ∉ d.reconciler.ledger.pending.keys := by
    rw [h]
    exact List.not_mem_nil
  rw [Table.mem_keys,Option.isSome_iff_ne_none,not_not] at hk
  exact hk

/-- A collection goes on from a place of a log. Before the rows come, when they come and after it, writers do
what they like. Once every record has been delivered and no mutation is pending, the store is the server's
table exactly if a record after the place tells of every key whose row was overlooked. -/
theorem rows_eq_table_iff (projectId : Int64) (options : CollectionOptions) (log : ShapeLog)
    (place : Position) (hplace : place.offset.le log.reach) (u v : List (Occasion R)) (rows : List R)
    (hl : (opened projectId options (some place)).Lawful log place (u ++ .rows (.ok rows)::v))
    (hall : ∀ r ∈ log.records, r.offset.le ((opened projectId options (some place)).after
      (u ++ .rows (.ok rows)::v)).subscription.offset)
    (hidle : ∀ key, ((opened projectId options (some place)).after
      (u ++ .rows (.ok rows)::v)).desk.record? key = none) :
    ((opened projectId options (some place)).after (u ++ .rows (.ok rows)::v)).store.rows =
        replay log.records ↔
      ∀ key, ((opened projectId options (some place)).after u).Overlooks rows key →
        log.Tells R place.offset key := by
  have happend : (opened projectId options (some place) : Collection R).after (u ++ .rows (.ok rows)::v) =
      (((opened projectId options (some place)).after u).step (.rows (.ok rows))).after v :=
    List.foldl_append
  rw [happend] at hall hidle ⊢
  obtain ⟨hu,⟨hseeding,rows',s,hrows,hlater,himage⟩,hv⟩ := lawful_append.mp hl
  obtain rfl : rows = rows' := Except.ok.inj hrows
  have hbefore := resumes_before_rows (resumes_opened projectId options hplace) hu hseeding
  have hend := resumes_after_rows (resumes_rows hbefore hseeding) (not_seeding_of_rows hseeding rows) hv
  have htable : replay log.records = (replay (log.upTo (((((opened projectId options (some place)).after
      u).step (.rows (.ok rows))).after v).subscription.offset)) : Table String R) := by
    rw [ShapeLog.upTo,List.filter_eq_self.mpr hall]
  have hkey : ∀ key, ((((opened projectId options (some place)).after u).step (.rows (.ok rows))).after
      v).store.rows.find? key = (replay log.records).find? key ↔
        (((opened projectId options (some place)).after u).Overlooks rows key →
          log.Tells R place.offset key) := by
    intro key
    rw [hend.find?_store (hidle key),htable,ShapeLog.find?_replay_upTo log hend.past]
    exact foundIn_agrees_iff hlater himage hall key
  constructor
  · intro h key
    exact (hkey key).mp (by rw [h])
  · intro h
    exact Table.ext_find? fun key => (hkey key).mpr (h key)

/-- A log in which two features arrive, the second one by a write of ours. -/
def twoArrivals : ShapeLog :=
  ⟨[⟨1,0,.ofFeature "E1" []⟩,⟨2,0,.ofFeature "E2" [⟨42⟩]⟩],.at 2 0,by decide,by decide⟩

/-- A log in which one feature arrives. -/
def oneArrival : ShapeLog := ⟨[⟨1,0,.ofFeature "E1" []⟩],.at 1 0,by decide,by decide⟩

/-- The place where the first feature has arrived. -/
def firstArrival : Position := ⟨⟨"a"⟩,.at 1 0⟩

def resumed : Collection Entity := opened 7 ⟨30000,.default,false,8⟩ (some firstArrival)

def bothRows : List Entity := [.inState "E1" .ready,.inState "E2" .ready]

/-- The stream brings the second feature, and only then the insertion is answered. -/
def secondArrives : List (Occasion Entity) := [
  .batch (.ok (.batch ⟨⟨"a"⟩,.at 2 0,[.change (.ofFeature "E2" [⟨42⟩]),.control .upToDate]⟩)),
  .desk (.reply 1 (.ok ⟨42⟩)) rfl]

/-- The rows of a later place come while the second feature is on its way to the server. -/
theorem rows_eq_table_secondArrives :
    (resumed.after (sendOff 1 "E2")).Overlooks bothRows "E2" ∧
      (resumed.after (sendOff 1 "E2" ++ .rows (.ok bothRows)::secondArrives)).store.rows =
        replay twoArrivals.records := by
  have hl : resumed.Lawful twoArrivals firstArrival
      (sendOff 1 "E2" ++ .rows (.ok bothRows)::secondArrives) := by
    refine ⟨rfl,rfl,⟨?_,_,.at 2 0,rfl,?_,?_⟩,⟨?_,.page ?_ ?_ ?_ ?_,rfl,?_⟩,rfl,trivial⟩
    all_goals decide +kernel
  have hall : ∀ r ∈ twoArrivals.records, r.offset.le
      (resumed.after (sendOff 1 "E2" ++ .rows (.ok bothRows)::secondArrives)).subscription.offset := by
    decide +kernel
  have hkeys : (resumed.after (sendOff 1 "E2" ++
      .rows (.ok bothRows)::secondArrives)).desk.reconciler.ledger.pending.keys = [] := by decide +kernel
  have hfirst : (resumed.after (sendOff 1 "E2")).desk.record? "E1" = none := by decide +kernel
  have hsecond : ((resumed.after (sendOff 1 "E2")).desk.record? "E2").isSome := by decide +kernel
  refine ⟨⟨hsecond,.inState "E2" .ready,by simp [bothRows],rfl⟩,?_⟩
  apply (rows_eq_table_iff 7 ⟨30000,.default,false,8⟩ twoArrivals firstArrival (by decide) _ _ _ hl hall
    (idle_of_keys hkeys)).mpr
  rintro key ⟨hpending,row,hrow,rfl⟩
  rcases List.mem_cons.mp hrow with rfl | hrow
  · exact absurd hfirst (Option.isSome_iff_ne_none.mp hpending)
  · obtain rfl := List.mem_singleton.mp hrow
    exact ⟨⟨2,0,.ofFeature "E2" [⟨42⟩]⟩,by simp [twoArrivals],by decide,
      ⟨"E2",some (.inState "E2" .ready),[⟨42⟩]⟩,by decide +kernel,rfl⟩

/-- The stream has nothing new, and the insertion is refused. -/
def refusal : List (Occasion Entity) := [
  .batch (.ok (.batch ⟨⟨"a"⟩,.at 1 0,[.control .upToDate]⟩)),
  .desk (.reply 1 (.error (.rejected 409 "exists"))) rfl]

/-- The row of a feature comes while its insertion is pending. The insertion is refused, since the feature is
there, and then the store lacks it. -/
theorem row_overlooked :
    resumed.Lawful oneArrival firstArrival
        (sendOff 1 "E1" ++ .rows (.ok [.inState "E1" .ready])::refusal) ∧
      (∀ r ∈ oneArrival.records, r.offset.le (resumed.after
        (sendOff 1 "E1" ++ .rows (.ok [.inState "E1" .ready])::refusal)).subscription.offset) ∧
      (∀ key, (resumed.after
        (sendOff 1 "E1" ++ .rows (.ok [.inState "E1" .ready])::refusal)).desk.record? key = none) ∧
      (resumed.after (sendOff 1 "E1" ++ .rows (.ok [.inState "E1" .ready])::refusal)).store.rows = .empty ∧
      (replay oneArrival.records).find? "E1" = some (Entity.inState "E1" .ready) := by
  refine ⟨?_,by decide +kernel,idle_of_keys (by decide +kernel),by decide +kernel,by decide +kernel⟩
  refine ⟨rfl,rfl,⟨?_,_,.at 1 0,rfl,?_,?_⟩,⟨?_,.page ?_ ?_ ?_ ?_,rfl,?_⟩,rfl,trivial⟩
  all_goals decide +kernel

end Collection
end FieldReplica
