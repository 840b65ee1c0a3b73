import FieldReplica.Proofs.Overlay

/-!
# Versions of a row

The server commits one version of a row after the other. The stream delivers them in order and at any
later time, and a row that is read was current at some moment between the question and the answer. A
read does not say which version it brings, so that a submission which is settled by a read puts the
version of the read in the place of whatever the stream has delivered meanwhile.
-/
namespace FieldReplica

variable {R : Type} [Row R]

/-- The values that the server has had under a key, none of them first. -/
structure History (R : Type) [Row R] (key : String) where
  version : Nat → Option R
  start : version 0 = none
  filed : ∀ n, FiledUnder key (version n)

/-- The values that some changes give a key. -/
def valuesUnder (key : String) (cs : List (RemoteChange R)) : List (Option R) :=
  (cs.filter (·.key = key)).map (·.row)

omit [Row R] in
private theorem lastUnder_changes (key : String) (cs : List (RemoteChange R)) (v : Option R) :
    lastUnder key (cs.map fun c => (c.key,c.row)) v = (valuesUnder key cs).getLast?.getD v := by
  induction cs generalizing v with
  | nil => rfl
  | cons c cs ih =>
    rw [List.map_cons,lastUnder_cons,ih]
    by_cases hk : c.key = key
    · have hv : valuesUnder key (c::cs) = c.row::valuesUnder key cs := by simp [valuesUnder,hk]
      rw [if_pos hk,hv,List.getLast?_cons]
      rfl
    · have hv : valuesUnder key (c::cs) = valuesUnder key cs := by simp [valuesUnder,hk]
      rw [if_neg hk,hv]

/-- A desk, and how far the server and the stream are with the versions of one key. -/
structure Course (R : Type) where
  desk : Desk R
  /-- The newest version. -/
  committed : Nat
  /-- The newest version that the stream has delivered. -/
  delivered : Nat
  /-- The version that was taken over last, from the stream or from a read. -/
  held : Nat
  /-- The newest version when a submission asked for the row. -/
  asked : Nat → Nat

/-- What happens to the desk and to the row of the key. -/
inductive Moment (R : Type) where
  /-- The server commits the next version. -/
  | commit
  | deliver (cs : List (RemoteChange R))
  /-- The row that a submission of the key asked for arrives in some version, or does not. -/
  | read (id : Nat) (answer : Except AdapterError Nat)
  | act (a : Action R)

/-- Whether an action leaves alone what the server says of a key. -/
def Action.Apart (key : String) (d : Desk R) : Action R → Prop
  | .remote _ | .snapshot _ _ | .seed _ | .close => False
  | .read id answer => ∀ f, d.find? id = some f →
      f.key ≠ key ∧ ∀ server, answer = .ok server → FiledUnder f.key server
  | _ => True

namespace Course

variable {key : String} (h : History R key)

def start (capacity timeout : Nat) : Course R := ⟨.create capacity timeout,0,0,0,fun _ => 0⟩

/-- The reading that an answer stands for. -/
def reading (id : Nat) (answer : Except AdapterError Nat) : Action R :=
  .read id (answer.map h.version)

/-- Whether an answer ends the record of its submission. -/
def settles (c : Course R) (id : Nat) (answer : Except AdapterError Nat) : Bool :=
  c.desk.retires (reading h id answer) key id

def step (c : Course R) : Moment R → Course R
  | .commit => { c with committed := c.committed + 1 }
  | .deliver cs =>
    let n := (valuesUnder key cs).length
    { c with
      desk := c.desk.step (.remote cs)
      delivered := c.delivered + n
      held := if n = 0 then c.held else c.delivered + n }
  | .read id answer =>
    { c with
      desk := c.desk.step (reading h id answer)
      held := match answer with
        | .ok j => if c.settles h id answer then j else c.held
        | .error _ => c.held }
  | .act a =>
    { c with
      desk := c.desk.step a
      asked := match a with
        | .expire id =>
          if (c.desk.act a).2.isEmpty then c.asked
          else fun i => if i = id then c.committed else c.asked i
        | _ => c.asked }

def after (c : Course R) (ms : List (Moment R)) : Course R := ms.foldl (step h) c

/-- Every moment of a run satisfies `P` where it comes. -/
def Along (P : Course R → Moment R → Prop) (c : Course R) : List (Moment R) → Prop
  | [] => True
  | m::ms => P c m ∧ (c.step h m).Along P ms

/-- What a moment may be: the stream delivers the next versions, and a read brings one that was current
since it was asked for. -/
def Legal (c : Course R) : Moment R → Prop
  | .commit => True
  | .deliver cs => (∀ x ∈ cs, FiledUnder x.key x.row) ∧ ∃ n, c.delivered + n ≤ c.committed ∧
      valuesUnder key cs = (List.range' (c.delivered + 1) n).map h.version
  | .read id answer => (∃ f, c.desk.find? id = some f ∧ f.key = key) ∧
      ∀ j, answer = .ok j → c.asked id ≤ j ∧ j ≤ c.committed
  | .act a => a.Apart key c.desk

/-- A read that settles a submission leaves no older version than the stream has delivered. -/
def NeverBack (c : Course R) : Moment R → Prop
  | .read id answer => c.settles h id answer →
      (c.step h (.read id answer)).delivered ≤ (c.step h (.read id answer)).held
  | _ => True

/-- The stream has not overtaken a read that settles a submission. -/
def NotOvertaken (c : Course R) : Moment R → Prop
  | .read id (.ok j) => c.settles h id (.ok j) → c.delivered ≤ j
  | _ => True

/-! ### The version that is held -/

/-- The server's value of the key is the version taken over last, which the server has committed. -/
structure Tallies (c : Course R) : Prop where
  account : ∃ g, c.desk.reconciler.Overlaid g ∧ g.given key = h.version c.held
  held_le : c.held ≤ c.committed
  delivered_le : c.delivered ≤ c.committed

variable {h} {c : Course R}

private theorem tallies_start (capacity timeout : Nat) : (start capacity timeout : Course R).Tallies h where
  account := ⟨Account.blank,Desk.overlaid_create capacity timeout,h.start.symm⟩
  held_le := Nat.le_refl 0
  delivered_le := Nat.le_refl 0

/-- After a delivery the newest of the versions that it brings is the server's value. -/
theorem giveChanges_given {cs : List (RemoteChange R)} {d n : Nat} {g : Account R}
    (hcs : valuesUnder key cs = (List.range' (d + 1) n).map h.version) :
    (g.giveChanges cs).given key = if n = 0 then g.given key else h.version (d + n) := by
  simp only [Account.giveChanges]
  rw [lastUnder_changes,hcs,List.getLast?_map,List.getLast?_range']
  split
  · rfl
  · have hlast : d + 1 + n - 1 = d + n := by omega
    rw [hlast]
    rfl

private theorem length_valuesUnder {cs : List (RemoteChange R)} {d n : Nat}
    (hcs : valuesUnder key cs = (List.range' (d + 1) n).map h.version) :
    (valuesUnder key cs).length = n := by
  rw [hcs,List.length_map,List.length_range']

private theorem tallies_deliver {cs : List (RemoteChange R)} (hc : c.Tallies h)
    (hl : c.Legal h (.deliver cs)) : (c.step h (.deliver cs)).Tallies h := by
  obtain ⟨hf,n,hn,hcs⟩ := hl
  obtain ⟨g,hg,hv⟩ := hc.account
  have hlength := length_valuesUnder hcs
  have hheld : (c.step h (.deliver cs)).held = if n = 0 then c.held else c.delivered + n := by
    simp only [step,hlength]
  have hdelivered : (c.step h (.deliver cs)).delivered = c.delivered + n := by
    simp only [step,hlength]
  refine ⟨⟨g.giveChanges cs,Desk.overlaid_step hg (a := .remote cs) hf,?_⟩,?_,?_⟩
  · rw [giveChanges_given hcs,hheld,hv]
    split <;> rfl
  · rw [hheld]
    split
    · exact hc.held_le
    · exact hn
  · rw [hdelivered]
    exact hn

private theorem tallies_read {id : Nat} {answer : Except AdapterError Nat} (hc : c.Tallies h)
    (hl : c.Legal h (.read id answer)) : (c.step h (.read id answer)).Tallies h := by
  obtain ⟨⟨f,hf,hk⟩,hj⟩ := hl
  obtain ⟨g,hg,hv⟩ := hc.account
  cases answer with
  | error e => exact ⟨⟨g,Desk.overlaid_step hg (a := .read id (.error e)) trivial,hv⟩,hc.held_le,hc.delivered_le⟩
  | ok j =>
    have hfaithful : (reading h id (.ok j)).Faithful c.desk := by
      intro f' hf'
      rw [← Option.some.inj (hf.symm.trans hf'),hk]
      exact h.filed j
    refine ⟨⟨_,Desk.overlaid_step hg hfaithful,?_⟩,?_,hc.delivered_le⟩
    · change (if c.settles h id (.ok j) then h.version j else g.given key) =
        h.version (if c.settles h id (.ok j) then j else c.held)
      rw [hv]
      split <;> rfl
    · change (if c.settles h id (.ok j) then j else c.held) ≤ c.committed
      split
      · exact (hj j rfl).2
      · exact hc.held_le

private theorem given_of_apart {d : Desk R} {a : Action R} (ha : a.Apart key d) (g : Account R) :
    a.Faithful d ∧ (g.after d a).given key = g.given key := by
  cases a with
  | remote cs | snapshot rows resync | seed rows | close => exact ha.elim
  | stage fresh m =>
    refine ⟨trivial,?_⟩
    rw [Account.after]
    split <;> rfl
  | read id answer =>
    cases answer with
    | error e => exact ⟨trivial,rfl⟩
    | ok server =>
      refine ⟨fun f hf => (ha f hf).2 server rfl,?_⟩
      have hr : d.retires (.read id (.ok server)) key id = false := by
        rw [← Bool.not_eq_true]
        intro hr
        obtain ⟨f,_,hf,_,_,hk,_⟩ := Desk.flight_of_retires_read hr
        exact (ha f hf).1 hk
      simp only [Account.after,hr,Bool.false_eq_true,if_false]
  | discard id | submit id | abort id | reply id answer | expire id | advance ms => exact ⟨trivial,rfl⟩

private theorem tallies_step {m : Moment R} (hc : c.Tallies h) (hl : c.Legal h m) :
    (c.step h m).Tallies h := by
  cases m with
  | commit => exact ⟨hc.account,Nat.le_succ_of_le hc.held_le,Nat.le_succ_of_le hc.delivered_le⟩
  | deliver cs => exact tallies_deliver hc hl
  | read id answer => exact tallies_read hc hl
  | act a =>
    obtain ⟨g,hg,hv⟩ := hc.account
    obtain ⟨hf,hgiven⟩ := given_of_apart hl g
    exact ⟨⟨g.after c.desk a,Desk.overlaid_step hg hf,hgiven.trans hv⟩,hc.held_le,hc.delivered_le⟩

private theorem tallies_after {ms : List (Moment R)} (hc : c.Tallies h) (hl : c.Along h (Legal h) ms) :
    (c.after h ms).Tallies h := by
  induction ms generalizing c with
  | nil => exact hc
  | cons m ms ih => exact ih (tallies_step hc hl.1) hl.2

/-! ### Reads that the stream overtakes -/

private theorem notOvertaken_of_neverBack {m : Moment R} (hm : c.NeverBack h m) : c.NotOvertaken h m := by
  cases m with
  | read id answer =>
    cases answer with
    | error e => trivial
    | ok j =>
      intro hr
      have hback := hm hr
      simp only [step,hr,if_true] at hback
      exact hback
  | commit | deliver cs | act a => trivial

/-- As long as no read is overtaken, the version that is held has not been overtaken either. -/
theorem delivered_le_held {m : Moment R} (hl : c.Legal h m) (hm : c.NotOvertaken h m)
    (hd : c.delivered ≤ c.held) :
    (c.step h m).delivered ≤ (c.step h m).held ∧ c.NeverBack h m := by
  cases m with
  | commit => exact ⟨hd,trivial⟩
  | deliver cs =>
    refine ⟨?_,trivial⟩
    simp only [step]
    split <;> omega
  | read id answer =>
    have hstep : (c.step h (.read id answer)).delivered ≤ (c.step h (.read id answer)).held := by
      cases answer with
      | error e => exact hd
      | ok j =>
        simp only [step]
        split
        · next hr => exact hm hr
        · exact hd
    exact ⟨hstep,fun _ => hstep⟩
  | act a => exact ⟨hd,trivial⟩

private theorem neverBack_iff (hd : c.delivered ≤ c.held) {ms : List (Moment R)}
    (hl : c.Along h (Legal h) ms) :
    c.Along h (NeverBack h) ms ↔ c.Along h (NotOvertaken h) ms := by
  induction ms generalizing c with
  | nil => exact Iff.rfl
  | cons m ms ih =>
    constructor
    · rintro ⟨hm,hms⟩
      have hn := notOvertaken_of_neverBack hm
      exact ⟨hn,(ih (delivered_le_held hl.1 hn hd).1 hl.2).mp hms⟩
    · rintro ⟨hm,hms⟩
      obtain ⟨hd',hback⟩ := delivered_le_held hl.1 hm hd
      exact ⟨hback,(ih hd' hl.2).mpr hms⟩

private theorem delivered_le_held_after (hd : c.delivered ≤ c.held) {ms : List (Moment R)}
    (hl : c.Along h (Legal h) ms) (hms : c.Along h (NotOvertaken h) ms) :
    (c.after h ms).delivered ≤ (c.after h ms).held := by
  induction ms generalizing c with
  | nil => exact hd
  | cons m ms ih => exact ih (delivered_le_held hl.1 hms.1 hd).1 hl.2 hms.2

/-- Without a record the store has the version taken over last. A settled submission never leaves an
older version than the stream has delivered exactly if no read that settles one is overtaken by the
stream; and then the store has the newest version once that is delivered. -/
theorem neverBack_iff_notOvertaken (capacity timeout : Nat) (ms : List (Moment R))
    (hl : (start capacity timeout : Course R).Along h (Legal h) ms) :
    let c := (start capacity timeout).after h ms
    (c.desk.record? key = none → c.desk.row? key = h.version c.held) ∧
    ((start capacity timeout).Along h (NeverBack h) ms ↔
      (start capacity timeout).Along h (NotOvertaken h) ms) ∧
    ((start capacity timeout).Along h (NotOvertaken h) ms → c.delivered = c.committed →
      c.desk.record? key = none → c.desk.row? key = h.version c.committed) := by
  intro c
  have ht : c.Tallies h := tallies_after (tallies_start capacity timeout) hl
  have hrow : c.desk.record? key = none → c.desk.row? key = h.version c.held := by
    intro hn
    obtain ⟨g,hg,hv⟩ := ht.account
    exact (Overlay.settled hg key hn).trans hv
  refine ⟨hrow,neverBack_iff (Nat.le_refl 0) hl,fun hms hd hn => ?_⟩
  have hle : c.delivered ≤ c.held := delivered_le_held_after (Nat.le_refl 0) hl hms
  have hheld : c.held = c.committed := Nat.le_antisymm ht.held_le (hd ▸ hle)
  rw [hrow hn,hheld]

/-- A feature that is ready first, and validated from its second version on. -/
def readyThenValidated : History Entity "E1" where
  version
    | 0 => none
    | 1 => some (.inState "E1" .ready)
    | _ => some (.inState "E1" .validated)
  start := rfl
  filed n := by
    match n with
    | 0 => exact filedUnder_none _
    | 1 => exact filedUnder_some rfl
    | n + 2 => exact filedUnder_some rfl

/-- A submission that sets a state, is accepted, and has to ask for the row. -/
def unconfirmed (status : EntityStatus) : List (Moment Entity) := [
  .commit,
  .deliver [⟨"E1",some (.inState "E1" .ready),[⟨41⟩]⟩],
  .act (.stage "" (Entity.setStatus "E1" status)),
  .act (.submit 1),
  .act (.reply 1 (.ok ⟨42⟩)),
  .act (.advance 30000),
  .act (.expire 1)]

private theorem along_unconfirmed (status : EntityStatus) {ms : List (Moment Entity)}
    (hms : (((start 8 30000).after readyThenValidated (unconfirmed status))).Along readyThenValidated
      (Legal readyThenValidated) ms) :
    (start 8 30000).Along readyThenValidated (Legal readyThenValidated) (unconfirmed status ++ ms) := by
  refine ⟨trivial,⟨?_,1,?_,rfl⟩,trivial,trivial,trivial,trivial,trivial,hms⟩
  · intro c hc
    rw [List.mem_singleton.mp hc]
    exact filedUnder_some rfl
  · exact Nat.le_refl 1

/-- The read brings the second version before the stream does. -/
def promptRead : List (Moment Entity) := unconfirmed .validated ++
  [.commit,.read 1 (.ok 2),.deliver [⟨"E1",some (.inState "E1" .validated),[⟨42⟩]⟩]]

theorem neverBack_iff_notOvertaken_promptRead :
    (start 8 30000).Along readyThenValidated (Legal readyThenValidated) promptRead ∧
      (start 8 30000).Along readyThenValidated (NeverBack readyThenValidated) promptRead ∧
      ((start 8 30000).after readyThenValidated promptRead).desk.row? "E1" =
        some (.inState "E1" .validated) := by
  have hl : (start 8 30000).Along readyThenValidated (Legal readyThenValidated) promptRead := by
    refine along_unconfirmed .validated ⟨trivial,⟨?_,?_⟩,⟨?_,1,?_,rfl⟩,trivial⟩
    · exact Option.map_eq_some_iff.mp (by decide +kernel)
    · intro j hj
      cases hj
      decide +kernel
    · intro c hc
      rw [List.mem_singleton.mp hc]
      exact filedUnder_some rfl
    · decide +kernel
  obtain ⟨_,hiff,hrow⟩ := neverBack_iff_notOvertaken 8 30000 promptRead hl
  have hn : (start 8 30000).Along readyThenValidated (NotOvertaken readyThenValidated) promptRead := by
    refine ⟨trivial,trivial,trivial,trivial,trivial,trivial,trivial,trivial,fun _ => ?_,trivial,trivial⟩
    decide +kernel
  exact ⟨hl,hiff.mpr hn,hrow hn (by decide +kernel) (by decide +kernel)⟩

/-- The read brings the first version after the stream has brought the second one. -/
def overtakenRead : List (Moment Entity) := unconfirmed .ready ++
  [.commit,.deliver [⟨"E1",some (.inState "E1" .validated),[⟨43⟩]⟩],.read 1 (.ok 1)]

/-- An overtaken read confirms the mutation and puts the row back: every version has been delivered, no
mutation is pending, and the store has the first version. -/
theorem overtakenRead_goes_back :
    (start 8 30000).Along readyThenValidated (Legal readyThenValidated) overtakenRead ∧
      ¬ (start 8 30000).Along readyThenValidated (NeverBack readyThenValidated) overtakenRead ∧
      let c := (start 8 30000).after readyThenValidated overtakenRead
      c.delivered = c.committed ∧ c.desk.record? "E1" = none ∧
        c.desk.row? "E1" = some (.inState "E1" .ready) ∧
        readyThenValidated.version c.committed = some (.inState "E1" .validated) := by
  refine ⟨along_unconfirmed .ready ⟨trivial,⟨?_,1,?_,rfl⟩,⟨?_,?_⟩,trivial⟩,fun hb => ?_,?_,?_,?_,?_⟩
  · intro c hc
    rw [List.mem_singleton.mp hc]
    exact filedUnder_some rfl
  · decide +kernel
  · exact Option.map_eq_some_iff.mp (by decide +kernel)
  · intro j hj
    cases hj
    decide +kernel
  · obtain ⟨_,_,_,_,_,_,_,_,_,hread,_⟩ := hb
    exact absurd (hread (by decide +kernel)) (by decide +kernel)
  all_goals decide +kernel

end Course
end FieldReplica
