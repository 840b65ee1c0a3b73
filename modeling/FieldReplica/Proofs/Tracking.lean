import FieldReplica.Proofs.Image
import FieldReplica.Proofs.ServerLog

/-!
# A subscription on the logs of its server

The server has a log for every handle. Whatever it answers, a subscription has gathered the rows of its
handle's log up to its own offset, and what it delivers takes a store that has these rows up to the next
offset.
-/
namespace FieldReplica

/-- The changes among some messages. -/
def changesIn (ms : List ShapeMessage) : List ChangeMessage :=
  ms.filterMap fun
    | .change m => some m
    | .control _ => none

/-- What the server may answer to a request. -/
inductive Answers (logs : ShapeHandle → ShapeLog) (q : ShapeRequest) :
    Except ShapeError ShapeResponse → Prop where
  /-- A failure that may pass. -/
  | failure {e : ShapeError} (hp : e.isPermanent = false) : Answers logs q (.error e)
  | mustRefetch : Answers logs q (.ok .mustRefetch)
  | refetchControl {b : ShapeBatch} (hc : .control .mustRefetch ∈ b.messages) :
      Answers logs q (.ok (.batch b))
  /-- The records after the offset that was asked for, of any log if no handle was named. -/
  | page {b : ShapeBatch} (hc : .control .mustRefetch ∉ b.messages)
      (hh : q.handle = none ∨ q.handle = some b.handle) (hr : b.offset.le (logs b.handle).reach)
      (hm : changesIn b.messages =
        ((logs b.handle).between q.offset b.offset).map (·.message)) :
      Answers logs q (.ok (.batch b))
  /-- Records that the subscription has had. -/
  | replay {b : ShapeBatch} (start : LogOffset) (hc : .control .mustRefetch ∉ b.messages)
      (hh : q.handle = some b.handle) (hr : b.offset.le q.offset)
      (hm : changesIn b.messages = ((logs b.handle).between start b.offset).map (·.message)) :
      Answers logs q (.ok (.batch b))
  /-- A batch of another shape, while the subscription is live. -/
  | foreign {b : ShapeBatch} (h : ShapeHandle) (hl : q.live = true) (hh : q.handle = some h)
      (hn : h ≠ b.handle) : Answers logs q (.ok (.batch b))

namespace Subscription

variable {R : Type} [Row R]

/-! ### Messages and records -/

theorem filed_decodeChange {m : ChangeMessage} {c : RemoteChange R} (h : decodeChange m = some c) :
    FiledUnder c.key c.row := by
  rw [decodeChange] at h
  split at h
  · cases h
    exact filedUnder_none _
  all_goals
    split at h
    · split at h
      · next hk =>
        cases h
        exact filedUnder_some hk
      · cases h
    · cases h

private theorem play_eq (rows : Table String R) (r : LogRecord) :
    r.play rows = ((decodeChange r.message).map (Image.apply rows)).getD rows := by
  rw [LogRecord.play,decodeChange]
  cases r.message.headers.operation with
  | delete => rfl
  | insert | update =>
    dsimp only
    cases (Row.decode : Decoder R).ofJson r.message.value with
    | error e => rfl
    | ok row =>
      dsimp only
      by_cases hk : Row.key row = r.message.key
      · rw [if_pos hk,if_pos hk]; rfl
      · rw [if_neg hk,if_neg hk]; rfl

theorem foldl_play (rows : Table String R) (rs : List LogRecord) :
    rs.foldl LogRecord.play rows =
      ((rs.map (·.message)).filterMap decodeChange).foldl Image.apply rows := by
  induction rs generalizing rows with
  | nil => rfl
  | cons r rs ih =>
    rw [List.foldl_cons,ih,play_eq,List.map_cons]
    cases h : (decodeChange r.message : Option (RemoteChange R)) with
    | none => rw [List.filterMap_cons_none h]; rfl
    | some c => rw [List.filterMap_cons_some h]; rfl

omit [Row R] in
theorem find?_foldl_apply (cs : List (RemoteChange R)) (rows : Table String R) (key : String) :
    (cs.foldl Image.apply rows).find? key =
      lastUnder key (cs.map fun c => (c.key,c.row)) (rows.find? key) := by
  induction cs generalizing rows with
  | nil => rfl
  | cons c cs ih =>
    have happly : (Image.apply rows c).find? key = if c.key = key then c.row else rows.find? key := by
      rw [Image.apply]
      cases c.row with
      | none => simp only [Table.find?_erase_of,eq_comm]
      | some row => simp only [Table.find?_insert_of,eq_comm]
    rw [List.foldl_cons,ih,happly,List.map_cons,lastUnder_cons]

theorem readMessages_mustRefetch (dup : Bool) (ms : List ShapeMessage) :
    (readMessages dup ms : Reading R).mustRefetch = true ↔ .control .mustRefetch ∈ ms := by
  induction ms with
  | nil => simp [readMessages]
  | cons m ms ih =>
    cases m with
    | control c => cases c <;> simp [readMessages,ih]
    | change m =>
      rw [readMessages]
      cases dup with
      | true => simpa using ih
      | false => cases (decodeChange m : Option (RemoteChange R)) <;> simpa using ih

theorem readMessages_changes (dup : Bool) {ms : List ShapeMessage}
    (h : .control .mustRefetch ∉ ms) : (readMessages dup ms : Reading R).changes =
      if dup then [] else (changesIn ms).filterMap decodeChange := by
  induction ms with
  | nil => cases dup <;> rfl
  | cons m ms ih =>
    obtain ⟨hm,hms⟩ := List.ne_and_not_mem_of_not_mem_cons h
    cases m with
    | control c =>
      cases c with
      | mustRefetch => exact absurd rfl hm
      | upToDate => exact ih hms
    | change m =>
      have hin : changesIn (.change m::ms) = m::changesIn ms := rfl
      rw [readMessages,hin]
      cases dup with
      | true => simpa using ih hms
      | false =>
        cases hc : (decodeChange m : Option (RemoteChange R)) with
        | none => rw [List.filterMap_cons_none hc]; exact ih hms
        | some c =>
          rw [List.filterMap_cons_some hc]
          exact congrArg (c::·) (ih hms)

/-! ### Where a subscription stands -/

/-- The rows of the log that a subscription follows, up to its offset. -/
def tracked (logs : ShapeHandle → ShapeLog) (s : Subscription R) : Table String R :=
  match s.handle with
  | none => .empty
  | some h => replay ((logs h).upTo s.offset)

/-- A subscription that gathers an image has the rows up to its offset, and it gathers one as long as it
has no handle. -/
structure Tracks (logs : ShapeHandle → ShapeLog) (s : Subscription R) : Prop where
  unplaced : s.handle = none → s.offset = .beforeStart ∧ s.image.isSome
  reached : ∀ h, s.handle = some h → s.offset.le (logs h).reach
  gathered : ∀ image, s.image = some image → image.rows = s.tracked logs

variable {logs : ShapeHandle → ShapeLog} {s : Subscription R}

private theorem tracks_restart (s : Subscription R) : s.restart.Tracks logs where
  unplaced _ := ⟨rfl,rfl⟩
  reached h hh := by cases hh
  gathered image hi := by cases hi; rfl

theorem tracked_of_handle {h : ShapeHandle} (hh : s.handle = some h) :
    s.tracked logs = replay ((logs h).upTo s.offset) := by
  rw [tracked,hh]

private theorem tracks_of_handle {h : ShapeHandle} (hh : s.handle = some h) (hr : s.offset.le (logs h).reach)
    (hg : ∀ image, s.image = some image → image.rows = replay ((logs h).upTo s.offset)) :
    s.Tracks logs where
  unplaced hn := by rw [hh] at hn; cases hn
  reached h' hh' := by rw [← Option.some.inj (hh.symm.trans hh')]; exact hr
  gathered image hi := by rw [hg image hi,tracked_of_handle hh]

/-- A batch that takes a subscription on: nothing of it is new if it is a replay, and else it has the
records up to its own offset. -/
structure Continues (logs : ShapeHandle → ShapeLog) (s : Subscription R) (b : ShapeBatch) : Prop where
  plain : .control .mustRefetch ∉ b.messages
  own : ∀ h, s.handle = some h → h = b.handle
  reach : (later s.offset b.offset).le (logs b.handle).reach
  records : s.isReplay b.offset = false →
    changesIn b.messages = ((logs b.handle).between s.offset b.offset).map (·.message)

omit [Row R] in
private theorem isReplay_eq_false {o : LogOffset} (hr : o.le s.offset) (hd : s.isReplay o = false) :
    s.offset = .beforeStart ∧ o = .beforeStart := by
  simp only [isReplay,hr,Bool.and_true,ne_eq,decide_eq_false_iff_not,not_not] at hd
  refine ⟨hd,?_⟩
  rw [hd,LogOffset.le_iff] at hr
  cases o with
  | beforeStart => rfl
  | «at» tx op => simp [LogOffset.rank] at hr

/-- What an answer of the server can be: a failure, an order to start over, or a batch that goes on. -/
theorem answers_cases (hs : s.Tracks logs) {x : Except ShapeError ShapeResponse}
    (hx : Answers logs s.request x) : (∃ e, x = .error e ∧ e.isPermanent = false) ∨
      x = .ok .mustRefetch ∨ (∃ b, x = .ok (.batch b) ∧ (.control .mustRefetch ∈ b.messages ∨
        s.image = none ∧ ∃ h, s.handle = some h ∧ h ≠ b.handle)) ∨
      ∃ b, x = .ok (.batch b) ∧ s.Continues logs b := by
  cases hx with
  | failure hp => exact .inl ⟨_,rfl,hp⟩
  | mustRefetch => exact .inr (.inl rfl)
  | refetchControl hc => exact .inr (.inr (.inl ⟨_,rfl,.inl hc⟩))
  | foreign h hl hh hn =>
    exact .inr (.inr (.inl ⟨_,rfl,.inr ⟨Option.isNone_iff_eq_none.mp hl,_,hh,hn⟩⟩))
  | page hc hh hr hm =>
    refine .inr (.inr (.inr ⟨_,rfl,hc,fun h hh' => ?_,?_,fun _ => hm⟩))
    · rcases hh with hh | hh
      · cases hh'.symm.trans hh
      · exact Option.some.inj (hh'.symm.trans hh)
    · rw [later]
      split
      · exact hr
      · rcases hh with hh | hh
        · rw [(hs.unplaced hh).1,LogOffset.le_iff]
          exact Nat.zero_le _
        · exact hs.reached _ hh
  | replay start hc hh hr hm =>
    next b =>
    refine .inr (.inr (.inr ⟨_,rfl,hc,fun h hh' => ?_,?_,fun hd => ?_⟩))
    · exact Option.some.inj (hh'.symm.trans hh)
    · have hreach := hs.reached _ hh
      change b.offset.le s.offset at hr
      rw [LogOffset.le_iff] at hreach hr
      rw [later,LogOffset.le_iff]
      split <;> omega
    · -- Only a batch that reaches no further than the start is not taken for a replay.
      have ho := (isReplay_eq_false hr hd).2
      rw [hm,ho,ShapeLog.between_beforeStart,ShapeLog.between_beforeStart]

/-- The changes of a batch that goes on lead from the rows up to the old offset to those up to the new
one. -/
theorem replay_later (hs : s.Tracks logs) {b : ShapeBatch} (hb : s.Continues logs b) :
    replay ((logs b.handle).upTo (later s.offset b.offset)) =
      (readMessages (s.isReplay b.offset) b.messages).changes.foldl Image.apply (s.tracked logs) := by
  have hstart : s.tracked logs = replay ((logs b.handle).upTo s.offset) := by
    rw [tracked]
    cases hh : s.handle with
    | none => rw [(hs.unplaced hh).1,ShapeLog.upTo_beforeStart]; rfl
    | some h => rw [hb.own h hh]
  rw [ShapeLog.upTo_later,replay_append,foldl_play,readMessages_changes _ hb.plain,hstart]
  cases hd : s.isReplay b.offset with
  | false => rw [← hb.records hd]; rfl
  | true =>
    have hle : b.offset.le s.offset := by
      rw [isReplay,Bool.and_eq_true] at hd
      exact hd.2
    rw [ShapeLog.between_of_le _ hle]
    rfl

/-- What a step delivers, as seen from the rows of the log before it and after it. -/
inductive Conveys (logs : ShapeHandle → ShapeLog) (s s' : Subscription R) : Step R → Prop where
  | proceed (h : s'.image = none → s.image = none ∧ s'.tracked logs = s.tracked logs) :
      Conveys logs s s' .proceed
  | failed {e : ShapeError} (hi : s'.image = s.image) (ht : s'.tracked logs = s.tracked logs) :
      Conveys logs s s' (.failed e)
  | reconnecting {n : Nat} {d : Duration} {reason : String} (hi : s'.image = s.image)
      (ht : s'.tracked logs = s.tracked logs) : Conveys logs s s' (.deliver (.reconnecting n d reason))
  | upToDate (hi' : s'.image = none) (hi : s.image = none) (ht : s'.tracked logs = s.tracked logs) :
      Conveys logs s s' (.deliver .upToDate)
  | changes {cs : List (RemoteChange R)} (hi' : s'.image = none) (hi : s.image = none)
      (hf : ∀ c ∈ cs, FiledUnder c.key c.row)
      (ht : s'.tracked logs = cs.foldl Image.apply (s.tracked logs)) :
      Conveys logs s s' (.deliver (.changes cs))
  | snapshot {rows : List R} {resync : Bool} (hi' : s'.image = none)
      (ht : imageOf rows = s'.tracked logs) : Conveys logs s s' (.deliver (.snapshot rows resync))

private theorem Conveys.of_eq {s t s' : Subscription R} {x : Step R} (h : Conveys logs s s' x)
    (hi : s.image = t.image) (ht : s.tracked logs = t.tracked logs) : Conveys logs t s' x := by
  cases h with
  | proceed h => exact .proceed fun h' => by rw [← hi,← ht]; exact h h'
  | failed hi' ht' => exact .failed (hi'.trans hi) (ht'.trans ht)
  | reconnecting hi' ht' => exact .reconnecting (hi'.trans hi) (ht'.trans ht)
  | upToDate hl hi' ht' => exact .upToDate hl (hi.symm.trans hi') (ht'.trans ht)
  | changes hl hi' hf ht' => exact .changes hl (hi.symm.trans hi') hf (by rw [← ht]; exact ht')
  | snapshot hl ht' => exact .snapshot hl ht'

/-- The step that the outcome of a batch stands for. -/
def Step.ofEvent? : Option (ShapeEvent R) → Step R
  | some e => .deliver e
  | none => .proceed

theorem receive_batch (s : Subscription R) (b : ShapeBatch) : s.receive (.ok (.batch b)) =
    ((({ s with failures := 0 } : Subscription R).applyBatch b).1,
      Step.ofEvent? (({ s with failures := 0 } : Subscription R).applyBatch b).2) := by
  rw [receive]
  rcases ({ s with failures := 0 } : Subscription R).applyBatch b with ⟨s',_ | e⟩ <;> rfl

theorem applyBatch_starts_over {b : ShapeBatch} (h : .control .mustRefetch ∈ b.messages ∨
    s.image = none ∧ ∃ h, s.handle = some h ∧ h ≠ b.handle) :
    ∃ n, s.applyBatch b = (({ s with dropped := n } : Subscription R).restart,none) := by
  rw [applyBatch]
  split
  · exact ⟨s.dropped,rfl⟩
  · next hc =>
    refine ⟨s.dropped + (readMessages (R := R) (s.isReplay b.offset) b.messages).dropped,?_⟩
    rcases h with h | ⟨hi,h,hh,hn⟩
    · rw [if_pos ((readMessages_mustRefetch _ _).mpr h)]
    · rw [hi,hh] at hc
      exact absurd (by simpa using hn) hc

private theorem filed_changes (dup : Bool) {ms : List ShapeMessage} (h : .control .mustRefetch ∉ ms)
    {c : RemoteChange R} (hc : c ∈ (readMessages dup ms).changes) : FiledUnder c.key c.row := by
  rw [readMessages_changes dup h] at hc
  cases dup with
  | true => cases hc
  | false =>
    obtain ⟨m,_,hm⟩ := List.mem_filterMap.mp hc
    exact filed_decodeChange hm

/-- A batch that goes on keeps the subscription on its log, and delivers what leads there. -/
theorem applyBatch_continues (hs : s.Tracks logs) {b : ShapeBatch} (hb : s.Continues logs b) :
    (s.applyBatch b).1.Tracks logs ∧
      Conveys logs s (s.applyBatch b).1 (Step.ofEvent? (s.applyBatch b).2) := by
  have hown : ¬ (s.image.isNone && s.handle.any (· ≠ b.handle)) = true := by
    cases hh : s.handle with
    | none => simp
    | some h => simp [hb.own h hh]
  have href : ¬ (readMessages (R := R) (s.isReplay b.offset) b.messages).mustRefetch = true :=
    fun h => hb.plain ((readMessages_mustRefetch _ _).mp h)
  have hfiled := fun c => filed_changes (R := R) (c := c) (s.isReplay b.offset) hb.plain
  have hlater := replay_later hs hb
  rw [applyBatch,if_neg hown]
  dsimp only
  rw [if_neg href]
  generalize readMessages (R := R) (s.isReplay b.offset) b.messages = reading at hfiled hlater ⊢
  cases hi : s.image with
  | none =>
    -- Live: what is new is delivered as it is.
    have hplace : ({ s with
        dropped := s.dropped + reading.dropped
        handle := some b.handle
        offset := later s.offset b.offset
        image := none } : Subscription R).Tracks logs :=
      tracks_of_handle rfl hb.reach nofun
    dsimp only
    split
    · exact ⟨hplace,.changes rfl hi hfiled ((tracked_of_handle rfl).trans hlater)⟩
    · next hcs =>
      rw [not_not.mp hcs] at hlater
      split
      · exact ⟨hplace,.upToDate rfl hi ((tracked_of_handle rfl).trans hlater)⟩
      · exact ⟨hplace,.proceed fun _ => ⟨hi,(tracked_of_handle rfl).trans hlater⟩⟩
  | some image =>
    -- Gathering: the image moves on, and is delivered as a whole once the log's end is reached.
    have hrows : reading.changes.foldl Image.apply image.rows =
        replay ((logs b.handle).upTo (later s.offset b.offset)) := by
      rw [hs.gathered image hi,hlater]
    dsimp only
    split
    · refine ⟨tracks_of_handle rfl hb.reach nofun,.snapshot rfl ?_⟩
      rw [hrows,tracked_of_handle rfl]
      exact imageOf_values (filed_replay _)
    · refine ⟨tracks_of_handle rfl hb.reach ?_,.proceed nofun⟩
      intro i hi
      rw [← Option.some.inj hi]
      exact hrows

/-- Whatever the server answers, a subscription stays on its log. -/
theorem receive_conveys (hs : s.Tracks logs) {x : Except ShapeError ShapeResponse}
    (hx : Answers logs s.request x) :
    (s.receive x).1.Tracks logs ∧ Conveys logs s (s.receive x).1 (s.receive x).2 := by
  have hreset : ({ s with failures := 0 } : Subscription R).Tracks logs :=
    ⟨hs.unplaced,hs.reached,hs.gathered⟩
  rcases answers_cases hs hx with ⟨e,rfl,hp⟩ | rfl | ⟨b,rfl,hb⟩ | ⟨b,rfl,hb⟩
  · rw [receive,hp]
    dsimp only
    rw [if_neg Bool.false_ne_true]
    split
    · exact ⟨⟨hs.unplaced,hs.reached,hs.gathered⟩,.failed rfl rfl⟩
    · exact ⟨⟨hs.unplaced,hs.reached,hs.gathered⟩,.reconnecting rfl rfl⟩
  · exact ⟨tracks_restart _,.proceed nofun⟩
  · obtain ⟨n,h⟩ := applyBatch_starts_over (s := { s with failures := 0 }) hb
    rw [receive_batch,h]
    exact ⟨tracks_restart _,.proceed nofun⟩
  · have hb' : ({ s with failures := 0 } : Subscription R).Continues logs b :=
      ⟨hb.plain,hb.own,hb.reach,hb.records⟩
    rw [receive_batch]
    obtain ⟨ht,hc⟩ := applyBatch_continues hreset hb'
    exact ⟨ht,hc.of_eq rfl rfl⟩

private theorem failure_applyBatch (s : Subscription R) (b : ShapeBatch) :
    (s.applyBatch b).1.failure = s.failure := by
  simp only [applyBatch]
  split
  · rfl
  · split
    · rfl
    · split
      · split
        · rfl
        · split <;> rfl
      · split <;> rfl

/-- Only the step that ends a subscription makes it fail. -/
theorem failure_receive (s : Subscription R) (x : Except ShapeError ShapeResponse) :
    (∃ e, (s.receive x).2 = .failed e) ∨ (s.receive x).1.failure = s.failure := by
  rcases x with e | b | _
  · rw [receive]
    split
    · exact .inl ⟨e,rfl⟩
    · dsimp only
      split
      · exact .inl ⟨e,rfl⟩
      · exact .inr rfl
  · rw [receive_batch]
    exact .inr (failure_applyBatch _ b)
  · exact .inr rfl

theorem begin_cases (s : Subscription R) : (∃ e, s.begin = (s,.failed e)) ∨
    s.failure = none ∧ s.begin = ({ s with delay := none },.request s.delay s.request) := by
  rw [begin]
  split
  · exact .inl ⟨_,rfl⟩
  · next h => exact .inr ⟨h,rfl⟩

end Subscription
end FieldReplica
