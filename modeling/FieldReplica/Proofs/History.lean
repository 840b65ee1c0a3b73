import FieldReplica.Proofs.Opening
import Mathlib.Data.List.Pairwise

/-!
# The history of a task

A store lists its rows in the order of their keys, and new keys come in no order. A history is put in the order of
time again, so that it does not depend on the keys, on when the rows arrived, or on what other tasks have. The state
that a command records with an event is then the one to which all events of the task so far lead.
-/
namespace FieldReplica

/-- Instants are ordered as the product of their parts is. -/
instance : Std.TransOrd Time.Instant :=
  inferInstanceAs (Std.TransCmp (compareLex (compareOn Time.Instant.day)
    (compareLex (compareOn Time.Instant.second) (compareOn Time.Instant.nano))))

namespace TaskEvent

variable {a b : TaskEvent} {rows es : List TaskEvent} {task : Int64}

/-! ### The order of a history -/

/-- The order of histories: by time, and at one time by key. -/
def order : TaskEvent → TaskEvent → Ordering :=
  compareLex (compareOn TaskEvent.createdAt) (compareOn TaskEvent.eventId)

instance : Std.TransCmp order :=
  inferInstanceAs (Std.TransCmp (compareLex (compareOn TaskEvent.createdAt) (compareOn TaskEvent.eventId)))

private theorem notAfter_iff : notAfter a b = true ↔ (order a b).isLE := by
  rw [notAfter,decide_eq_true_iff,Ordering.isLE_iff_ne_gt]
  rfl

private theorem order_of_lt (h : compare a.createdAt b.createdAt = .lt) : order a b = .lt := by
  have hthen : order a b = (compare a.createdAt b.createdAt).then (compare a.eventId b.eventId) := rfl
  rw [hthen,h]
  rfl

private theorem pairwise_history (rows : List TaskEvent) (task : Int64) :
    (history rows task).Pairwise fun a b => notAfter a b = true := by
  refine List.pairwise_mergeSort (fun a b c hab hbc => ?_) (fun a b => ?_) _
  · rw [notAfter_iff] at hab hbc ⊢
    exact Std.TransCmp.isLE_trans hab hbc
  · have hback : (order b a).isLE = true ↔ (order a b).isGE = true := Std.OrientedCmp.isGE_iff_isLE.symm
    rw [Bool.or_eq_true,notAfter_iff,notAfter_iff,hback]
    cases order a b <;> simp

/-- Of events at different times there is one history. -/
theorem history_of_perm (h : (rows.filter (·.taskId = task)).Perm es)
    (hes : es.Pairwise fun a b => compare a.createdAt b.createdAt = .lt) : history rows task = es := by
  have hsorted : es.Pairwise fun a b => notAfter a b = true := hes.imp fun hlt => by
    rw [notAfter_iff,order_of_lt hlt]
    rfl
  have hperm : (history rows task).Perm es := (List.mergeSort_perm _ _).trans h
  refine hperm.eq_of_pairwise (fun a b ha hb hab hba => ?_) (pairwise_history rows task) hsorted
  -- Two events that stand in both orders are at one time, so they are one event of the list.
  have heq : order a b = .eq := Std.OrientedCmp.isLE_antisymm (notAfter_iff.mp hab) (notAfter_iff.mp hba)
  have : Std.Symm fun a b : TaskEvent => order a b ≠ .eq := ⟨fun a b h heq => h (Std.OrientedCmp.eq_comm.mp heq)⟩
  have hapart : es.Pairwise fun a b => order a b ≠ .eq := hes.imp fun hlt => by
    rw [order_of_lt hlt]
    exact nofun
  by_contra hne
  exact hapart.forall (hperm.mem_iff.mp ha) hb hne heq

/-- Of one task the rows are exactly some events. -/
def Holds (rows : List TaskEvent) (task : Int64) (es : List TaskEvent) : Prop :=
  ∀ e, e.taskId = task → (e ∈ rows ↔ e ∈ es)

private theorem history_of_holds {s : Store TaskEvent} (hs : s.Filed) (h : Holds s.list task es)
    (htask : ∀ e ∈ es, e.taskId = task)
    (hes : es.Pairwise fun a b => compare a.createdAt b.createdAt = .lt) : history s.list task = es := by
  refine history_of_perm ((List.perm_ext_iff_of_nodup ?_ ?_).mpr fun e => ?_) hes
  · exact (hs.ascending.imp fun hlt heq => by rw [heq] at hlt; exact String.lt_irrefl _ hlt).filter _
  · exact hes.imp fun hlt heq => by
      rw [heq] at hlt
      cases hlt.symm.trans Std.ReflCmp.compare_self
  · rw [List.mem_filter,decide_eq_true_iff]
    exact ⟨fun ⟨he,ht⟩ => (h e ht).mp he,fun he => ⟨(h e (htask e he)).mpr he,htask e he⟩⟩

/-! ### Recorded events -/

/-- The state that some activity leads to on a task that waits to be mapped. -/
def stateAfter (kinds : List TaskEventKind) : TaskStatus :=
  kinds.foldl (fun state kind => kind.resultingStatus state) .unlockedToMap

private theorem stateAfter_concat (kinds : List TaskEventKind) (kind : TaskEventKind) :
    stateAfter (kinds ++ [kind]) = kind.resultingStatus (stateAfter kinds) := List.foldl_concat _ _ _ _

/-- Events of a task that commands have recorded one after another, without saying what state they lead to, each
in a project that held exactly the events before it. -/
inductive Recorded (task : Int64) : List TaskEvent → Prop where
  | none : Recorded task []
  | next {es : List TaskEvent} {env : Console.Environment} {project : Int64} {kind : TaskEventKind}
      {username : String} {comment : Option String} {p : Console.Environment.Project} {e : TaskEvent}
      (earlier : Recorded task es) (holds : Holds p.taskEvents.collection.store.list task es)
      (submits : env.Submits project task kind username comment p e) : Recorded task (es ++ [e])

/-- In some rows a task has some events as its history, and is in the state that these lead to. -/
structure Recounts (rows : List TaskEvent) (task : Int64) (es : List TaskEvent) : Prop where
  history : history rows task = es
  state : currentStatus (TaskEvent.history rows task) = stateAfter (es.map (·.event))

/-- Each event has the state that the kinds of the events up to it lead to. -/
def Chained (es : List TaskEvent) : Prop :=
  ∀ i (hi : i < es.length), es[i].status = stateAfter ((es.take (i + 1)).map (·.event))

private theorem Chained.concat {e : TaskEvent} (h : Chained es)
    (he : e.status = stateAfter ((es ++ [e]).map (·.event))) :
    Chained (es ++ [e]) := by
  intro i hi
  rw [List.length_append,List.length_singleton] at hi
  rcases Nat.lt_or_eq_of_le (Nat.le_of_lt_succ hi) with hlt | rfl
  · rw [List.getElem_append_left hlt,List.take_append_of_le_length hlt]
    exact h i hlt
  · rw [List.getElem_concat_length rfl,List.take_of_length_le (by simp)]
    exact he

private theorem currentStatus_of_chained (h : Chained es) : currentStatus es = stateAfter (es.map (·.event)) := by
  cases es using List.reverseRec with
  | nil => rfl
  | append_singleton es e =>
    have hlast := h es.length (by simp)
    rw [List.take_of_length_le (by simp)] at hlast
    rw [currentStatus,List.getLast?_concat]
    simpa using hlast

theorem Recorded.taskId (h : Recorded task es) : ∀ e ∈ es, e.taskId = task := by
  induction h with
  | none =>
    intro x hx
    cases hx
  | next earlier holds submits ih =>
    intro x hx
    rcases List.mem_append.mp hx with hx | hx
    · exact ih x hx
    · rw [List.mem_singleton.mp hx,submits.event_eq]
      rfl

private theorem Recorded.recounts_of_chained (h : Recorded task es) (hchained : Chained es)
    (hes : es.Pairwise fun a b => compare a.createdAt b.createdAt = .lt) {s : Store TaskEvent} (hs : s.Filed)
    (hholds : Holds s.list task es) : Recounts s.list task es := by
  have hhistory := history_of_holds hs hholds h.taskId hes
  refine ⟨hhistory,?_⟩
  rw [hhistory]
  exact currentStatus_of_chained hchained

private theorem status_of_submits {env : Console.Environment} {project : Int64} {kind : TaskEventKind}
    {username : String}
    {comment : Option String} {p : Console.Environment.Project} {e : TaskEvent}
    (h : env.Submits project task kind username comment p e)
    (hstate : currentStatus (history p.taskEvents.collection.store.list task) = stateAfter (es.map (·.event))) :
    e.status = stateAfter ((es ++ [e]).map (·.event)) := by
  have hstatus : e.status = kind.resultingStatus
      (currentStatus (history p.taskEvents.collection.store.list task)) := congrArg status h.event_eq
  have hkind : e.event = kind := congrArg event h.event_eq
  rw [hstatus,hstate,← stateAfter_concat,List.map_append,List.map_singleton,hkind]

private theorem Recorded.chained (h : Recorded task es)
    (hes : es.Pairwise fun a b => compare a.createdAt b.createdAt = .lt) : Chained es := by
  induction h with
  | none =>
    intro i hi
    cases hi
  | @next es env project kind username comment p e earlier holds submits ih =>
    obtain ⟨hearlier,_,_⟩ := List.pairwise_append.mp hes
    have hchained := ih hearlier
    have hfiled : p.taskEvents.collection.store.Filed :=
      (Console.Environment.unheld_openProject submits.opened).2.filed
    have hstate := (earlier.recounts_of_chained hchained hearlier hfiled holds).state
    exact hchained.concat (status_of_submits submits hstate)

/-! ### Rows that arrive -/

/-- Writes bring of one task exactly some events, in any order and any number of times; whatever else is written
stands under other keys. -/
structure Brings (ws : List (Write TaskEvent)) (task : Int64) (es : List TaskEvent) : Prop where
  written : ∀ e, e.taskId = task → (.upsert e ∈ ws ↔ e ∈ es)
  alone : ∀ w ∈ ws, ∀ e ∈ es, w.entry.1 = e.eventId → w = .upsert e

/-- A store to which batches were written one after another. -/
def ofBatches (capacity : Nat) (batches : List (List (Write TaskEvent))) : Store TaskEvent :=
  (Store.create capacity).run (batches.map .batch)

private theorem get?_run_batches (s : Store TaskEvent) (batches : List (List (Write TaskEvent))) (key : String) :
    (s.run (batches.map .batch)).get? key = lastUnder key (batches.flatten.map Write.entry) (s.get? key) := by
  induction batches generalizing s with
  | nil => rfl
  | cons ws batches ih =>
    have hfirst : (s.write ws).get? key = lastUnder key (ws.map Write.entry) (s.get? key) :=
      Write.find?_applyAll ws s.rows key
    rw [List.flatten_cons,List.map_append,lastUnder_append,← hfirst]
    exact ih (s.write ws)

private theorem holds_of_brings {batches : List (List (Write TaskEvent))} (h : Brings batches.flatten task es)
    (capacity : Nat) : Holds (ofBatches capacity batches).list task es := by
  intro e he
  have hfiled : (ofBatches capacity batches).Filed := Store.filed_run (Store.filed_create capacity) _
  have hget := get?_run_batches (Store.create capacity) batches e.eventId
  rw [hfiled.mem_list]
  constructor
  · intro hsome
    rcases lastUnder_cases e.eventId (batches.flatten.map Write.entry) none with ⟨hnone,_⟩ | ⟨x,hx,_,hlast⟩
    · cases hsome.symm.trans (hget.trans hnone)
    · obtain ⟨w,hw,rfl⟩ := List.mem_map.mp hx
      have hentry : w.entry.2 = some e := hlast.symm.trans (hget.symm.trans hsome)
      cases w with
      | upsert row => exact (h.written e he).mp (Option.some.inj hentry ▸ hw)
      | delete key => cases hentry
  · intro hmem
    have hwritten := List.mem_map_of_mem (f := Write.entry) ((h.written e he).mpr hmem)
    refine hget.trans (lastUnder_eq (fun x hx hkey => ?_) (.inr ⟨_,hwritten,rfl⟩))
    obtain ⟨w,hw,rfl⟩ := List.mem_map.mp hx
    rw [h.alone w hw e hmem hkey]
    rfl

/-- Events of a task whose times strictly increase, each recorded in a project that held exactly the ones before:
each has the state that the kinds of the events up to it lead to. Whatever was asked of a store, in whatever order
rows arrived in batches, and in any project that is opened: where exactly these events are there of the task, its
history is these events in their order, its state is the one that all their kinds lead to, and a command that reports
another event as recorded has asked for one that goes on from there. -/
theorem history_of_recorded (h : Recorded task es)
    (hes : es.Pairwise fun a b => compare a.createdAt b.createdAt = .lt) :
    (∀ i (hi : i < es.length), es[i].status = stateAfter ((es.take (i + 1)).map (·.event))) ∧
    (∀ capacity (calls : List (Store.Call TaskEvent)), let rows := ((Store.create capacity).run calls).list
      Holds rows task es → Recounts rows task es) ∧
    (∀ capacity batches, Brings batches.flatten task es → Recounts (ofBatches capacity batches).list task es) ∧
    ∀ (env : Console.Environment) (project : Int64) (p : Console.Environment.Project),
      (env.openProject project).run = some (.ok p) → Holds p.taskEvents.collection.store.list task es →
      Recounts p.taskEvents.collection.store.list task es ∧
      (env.showHistory project task).run = some (.ok (Console.history es)) ∧
      ∀ kind username comment r, (env.addEvent project task kind username comment none).run = some (.ok r) →
        ∃ e, env.Submits project task kind username comment p e ∧ Recorded task (es ++ [e]) ∧
          e.status = stateAfter ((es ++ [e]).map (·.event)) := by
  have hchained := h.chained hes
  have hcreated := fun capacity => Store.filed_run (Store.filed_create (R := TaskEvent) capacity)
  refine ⟨hchained,?_,?_,?_⟩
  · intro capacity calls rows hholds
    exact h.recounts_of_chained hchained hes (hcreated capacity calls) hholds
  · intro capacity batches hbrings
    exact h.recounts_of_chained hchained hes (hcreated capacity _) (holds_of_brings hbrings capacity)
  · intro env project p hopened hholds
    have hfiled : p.taskEvents.collection.store.Filed := (Console.Environment.unheld_openProject hopened).2.filed
    have hrecounts := h.recounts_of_chained hchained hes hfiled hholds
    refine ⟨hrecounts,?_,?_⟩
    · rw [← hrecounts.history]
      exact Console.Environment.run_showHistory hopened task
    · intro kind username comment r hr
      obtain ⟨p',e,hsubmits⟩ := Console.Environment.submits_of_addEvent hr
      obtain rfl : p' = p := Except.ok.inj (Option.some.inj (hsubmits.opened.symm.trans hopened))
      exact ⟨e,hsubmits,h.next hholds hsubmits,status_of_submits hsubmits hrecounts.state⟩

/-! ### A task that is mapped and then talked about -/

/-- A network on which a server answers for a table of task events with some documents as its changes, and for a
table of features with none. -/
def served (changes : List Json) : Http.Network where
  send r :=
    let octets := fun (cs : List Char) => cs.map fun c => UInt8.ofNat c.toNat
    let asks := fun (part : String) => Text.holds (r.url.query.getD []) part.toList
    let changes := if asks "task_events" then changes else []
    if asks "offset=" then
      .ok ⟨200,[("fieldsync-handle",octets ['h']),("fieldsync-offset",octets ['0','_','0'])],
        some (octets (Json.array (changes ++ [(ShapeMessage.control .upToDate).toJson])).chars)⟩
    else .ok ⟨200,[],some (octets (Json.array []).chars)⟩
  unsendable := "builder error"
  unreadable := "error decoding response body"

/-- A user at a moment, whose next new event gets a key. -/
def userOf (changes : List Json) (freshKey : String) (now : Time.Instant) : Console.Environment where
  home := ""
  read _ := .error .notFound
  token := none
  stdoutTerminal := false
  stderrTerminal := false
  network := served changes
  freshKey := freshKey
  now := now
  patience := 3

def later : Time.Instant := { Time.Instant.start with nano := 1, nano_lt := by omega }

def mapped : TaskEvent := ⟨"b",.map,7,3,none,.start,"ann",none,.lockedForMapping⟩

def discussed : TaskEvent := ⟨"a",.comment,7,3,some "?",later,"bob",none,.lockedForMapping⟩

/-- An event of another task. -/
def elsewhere : TaskEvent := ⟨"aa",.finish,7,4,none,later,"cy",none,.unlockedToValidate⟩

/-- The change that brings the first event, without the members that it has no value for. -/
def mappedChange : Json := .object [("key",.string "b"),("headers",.object [("operation",.string "insert")]),
  ("value",.object [("event_id",.string "b"),("event",.string "MAP"),("project_id",.int 7),("task_id",.int 3),
    ("created_at",.string "1970-01-01T00:00:00Z"),("username",.string "ann"),
    ("status",.string "LOCKED_FOR_MAPPING")])]

/-- The rows that a user finds, and whether an event of the user's can be staged on them. -/
def found (env : Console.Environment) (kind : TaskEventKind) (username : String) (comment : Option String) :
    Option (List TaskEvent × Bool) :=
  match (env.openProject 7).run with
  | some (.ok p) =>
    let c := p.taskEvents.collection
    some (c.store.list,(c.desk.stage env.freshKey
      (.insert (env.newEvent c.store.list 7 3 kind username comment none))).isOk)
  | _ => none

private theorem submits_of_found {env : Console.Environment} {kind : TaskEventKind} {username : String}
    {comment : Option String} (h : found env kind username comment = some (rows,true)) :
    ∃ p, p.taskEvents.collection.store.list = rows ∧ env.Submits 7 3 kind username comment p
      (Row.withKey (env.newEvent rows 7 3 kind username comment none) env.freshKey) := by
  rw [found] at h
  split at h
  · next p hp =>
    obtain ⟨rfl,hok⟩ := Prod.mk.inj (Option.some.inj h)
    refine ⟨p,rfl,?_⟩
    cases hs : p.taskEvents.collection.desk.stage env.freshKey
        (.insert (env.newEvent p.taskEvents.collection.store.list 7 3 kind username comment none)) with
    | error e =>
      rw [hs] at hok
      cases hok
    | ok x => exact Console.Environment.submits_of_stage hp hs
  · cases h

private theorem recorded_discussed : Recorded 3 [mapped,discussed] := by
  have hmapped : found (userOf [] "b" .start) .map "ann" none = some ([],true) := by decide +kernel
  have hdiscussed : found (userOf [mappedChange] "a" later) .comment "bob" (some "?") = some ([mapped],true) := by
    decide +kernel
  obtain ⟨p,hp,hfirst⟩ := submits_of_found hmapped
  obtain ⟨p',hp',hsecond⟩ := submits_of_found hdiscussed
  have hevents : Row.withKey ((userOf [] "b" .start).newEvent [] 7 3 .map "ann" none none) "b" = mapped ∧
      Row.withKey ((userOf [mappedChange] "a" later).newEvent [mapped] 7 3 .comment "bob" (some "?") none) "a" =
        discussed := by decide +kernel
  exact (Recorded.none.next (hp ▸ fun e _ => Iff.rfl) (hevents.1 ▸ hfirst)).next (hp' ▸ fun e _ => Iff.rfl)
    (hevents.2 ▸ hsecond)

/-- The later event arrives first, with one of another task, and its key comes first. -/
theorem history_of_recorded_discussed :
    Recorded 3 [mapped,discussed] ∧
    ([mapped,discussed].Pairwise fun a b => compare a.createdAt b.createdAt = .lt) ∧
    (ofBatches 4 [[.upsert discussed,.upsert elsewhere],[.upsert mapped]]).list = [discussed,elsewhere,mapped] ∧
    Recounts (ofBatches 4 [[.upsert discussed,.upsert elsewhere],[.upsert mapped]]).list 3 [mapped,discussed] ∧
    discussed.status = stateAfter [.map,.comment] := by
  have htimes : [mapped,discussed].Pairwise fun a b => compare a.createdAt b.createdAt = .lt := by decide
  have hbrings : Brings [.upsert discussed,.upsert elsewhere,.upsert mapped] 3 [mapped,discussed] := by
    refine ⟨fun e he => ?_,by decide +kernel⟩
    have hother : e ≠ elsewhere := fun h => by
      rw [h] at he
      revert he
      decide
    simp [hother,or_comm]
  obtain ⟨hstatus,_,hbatches,_⟩ := history_of_recorded recorded_discussed htimes
  exact ⟨recorded_discussed,htimes,by decide +kernel,
    hbatches 4 [[.upsert discussed,.upsert elsewhere],[.upsert mapped]] hbrings,hstatus 1 (by decide)⟩

end TaskEvent
end FieldReplica
