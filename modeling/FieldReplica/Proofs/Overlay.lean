import FieldReplica.Proofs.Image
import FieldReplica.Proofs.Reconciler
import FieldReplica.Proofs.Run

/-!
# Optimistic values over the server's values

The account of a run says, for every key, what the server gave for it last and what the last mutation
staged on it makes of that. The store is the first of the two, laid over by the second wherever a
mutation is pending, and the record of a pending mutation keeps the value that lies below.
-/
namespace FieldReplica

variable {R : Type} [Row R]

/-- What is known about every key from outside the store. -/
structure Account (R : Type) where
  /-- The last value that the server gave. -/
  given : String → Option R
  /-- What the last mutation staged on the key makes of the value that it found. -/
  shown : String → Option R

namespace Account

def blank : Account R := ⟨fun _ => none,fun _ => none⟩

def give (g : Account R) (key : String) (v : Option R) : Account R :=
  { g with given := fun k => if k = key then v else g.given k }

def display (g : Account R) (key : String) (v : Option R) : Account R :=
  { g with shown := fun k => if k = key then v else g.shown k }

/-- The values that remote changes give, one after the other. -/
def giveChanges (g : Account R) (cs : List (RemoteChange R)) : Account R :=
  { g with given := fun k => lastUnder k (cs.map fun c => (c.key,c.row)) (g.given k) }

/-- The account after an action. A read counts if the row that it brings ends the record; seeded rows
count where no mutation is pending. -/
def after (g : Account R) (d : Desk R) : Action R → Account R
  | .stage fresh m =>
    match d.stage fresh m with
    | .ok (_,.staged s) => g.display s.key ((Reconciler.withKey fresh m).outcome? (g.given s.key))
    | _ => g
  | .remote cs => g.giveChanges cs
  | .snapshot rows _ => { g with given := fun k => lastUnder k (rowEntries rows) none }
  | .seed rows =>
    { g with given := fun k =>
        if (d.record? k).isSome then g.given k else lastUnder k (rowEntries rows) (g.given k) }
  | .read id (.ok server) =>
    { g with given := fun k => if d.retires (.read id (.ok server)) k id then server else g.given k }
  | _ => g

def along (g : Account R) (d : Desk R) : List (Action R) → Account R
  | [] => g
  | a::as => (g.after d a).along (d.step a) as

end Account

/-- What the stream and the server's reads promise: a row under its own key. Closing is left out. -/
def Action.Faithful (d : Desk R) : Action R → Prop
  | .remote cs => ∀ c ∈ cs, FiledUnder c.key c.row
  | .read id (.ok server) => ∀ f, d.find? id = some f → FiledUnder f.key server
  | .close => False
  | _ => True

/-- The rows are what the server gave, laid over by what the pending mutations show. -/
structure Overlay (g : Account R) (rows : Table String R) (pending : Table String (Pending R)) :
    Prop where
  filed : ∀ key, FiledUnder key (g.given key)
  covered : ∀ key p, pending.find? key = some p → p.base = g.given key ∧ rows.find? key = g.shown key
  settled : ∀ key, pending.find? key = none → rows.find? key = g.given key

namespace Overlay

variable {g : Account R} {rows : Table String R} {l : Ledger R}

theorem empty : Overlay (Account.blank : Account R) .empty .empty where
  filed _ := filedUnder_none _
  covered _ _ h := by cases h
  settled _ _ := rfl

/-- The account and the keys with a record say what the rows are. -/
theorem rows_eq {rows' : Table String R} {pending pending' : Table String (Pending R)}
    (h : Overlay g rows pending) (h' : Overlay g rows' pending')
    (hp : ∀ key, pending'.find? key = none ↔ pending.find? key = none) : rows' = rows := by
  apply Table.ext_find?
  intro key
  cases hkey : pending.find? key with
  | none => rw [h.settled key hkey,h'.settled key ((hp key).mpr hkey)]
  | some p =>
    cases hkey' : pending'.find? key with
    | none => cases ((hp key).mp hkey').symm.trans hkey
    | some p' => rw [(h.covered key p hkey).2,(h'.covered key p' hkey').2]

/-- A key without a record shows what the server gives it. -/
theorem settle {pending pending' : Table String (Pending R)} (h : Overlay g rows pending)
    {key : String} {v : Option R} (hv : FiledUnder key v) (hkey : pending'.find? key = none)
    (hne : ∀ k, k ≠ key → pending'.find? k = pending.find? k) :
    Overlay (g.give key v) (Write.applyAll rows [.restore key v]) pending' where
  filed k := by
    simp only [Account.give]
    split
    · next hk => rw [hk]; exact hv
    · exact h.filed k
  covered k p hp := by
    have hk : k ≠ key := by rintro rfl; rw [hkey] at hp; cases hp
    rw [Write.find?_restore hv,if_neg hk]
    simp only [Account.give,if_neg hk]
    exact h.covered k p (hne k hk ▸ hp)
  settled k hp := by
    rw [Write.find?_restore hv]
    simp only [Account.give]
    split
    · rfl
    · next hk => exact h.settled k (hne k hk ▸ hp)

omit [Row R] in
private theorem give_given (g : Account R) (key : String) : g.give key (g.given key) = g := by
  have h : (fun k => if k = key then g.given key else g.given k) = g.given := by
    funext k
    split
    · next hk => rw [hk]
    · rfl
  rw [Account.give,h]

private theorem takeBack (h : Overlay g rows l.pending) {key : String} {p : Pending R}
    (hp : l.pending.find? key = some p) :
    Overlay g (Write.applyAll rows [.restore key p.base]) (l.remove key).pending := by
  have hb := (h.covered key p hp).1
  have hs := h.settle (hb ▸ h.filed key : FiledUnder key p.base) (Table.find?_erase_self _ key)
    (fun k hk => Table.find?_erase_ne l.pending hk)
  rw [hb,give_given] at hs
  rw [hb]
  exact hs

/-- A record that goes on keeps the value below it. -/
theorem put (h : Overlay g rows l.pending) {key : String} {p q : Pending R}
    (hp : l.pending.find? key = some p) (hq : q.base = p.base) :
    Overlay g rows (l.put key q).pending where
  filed := h.filed
  covered k r hr := by
    rw [Ledger.put,Table.find?_insert_of] at hr
    split at hr
    · next hk =>
      rw [← Option.some.inj hr,hk,hq]
      exact h.covered key p hp
    · exact h.covered k r hr
  settled k hr := by
    rw [Ledger.put,Table.find?_insert_of] at hr
    split at hr
    · cases hr
    · exact h.settled k hr

/-- One remote change. -/
theorem receive (h : Overlay g rows l.pending) {c : RemoteChange R} (hc : FiledUnder c.key c.row) :
    Overlay (g.give c.key c.row) (Write.applyAll rows (l.receive c).writes)
      (l.receive c).ledger.pending := by
  cases hp : l.pending.find? c.key with
  | none =>
    rw [Ledger.receive_of_none hp]
    exact h.settle hc hp (fun _ _ => rfl)
  | some p =>
    cases ht : p.matched? c.txids with
    | some t =>
      rw [Ledger.receive_of_matched hp ht]
      exact h.settle hc (Table.find?_erase_self _ _) (fun k hk => Table.find?_erase_ne _ hk)
    | none =>
      -- The value below moves, and what the store shows stays.
      rw [Ledger.receive_of_unmatched hp ht]
      refine ⟨fun k => ?_,fun k q hq => ?_,fun k hq => ?_⟩
      · simp only [Account.give]
        split
        · next hk => rw [hk]; exact hc
        · exact h.filed k
      · rw [Table.find?_insert_of] at hq
        simp only [Account.give]
        split at hq
        · next hk =>
          rw [← Option.some.inj hq,if_pos hk,hk]
          exact ⟨rfl,(h.covered _ p hp).2⟩
        · next hk =>
          rw [if_neg hk]
          exact h.covered k q hq
      · rw [Table.find?_insert_of] at hq
        split at hq
        · cases hq
        · next hk =>
          simp only [Account.give,if_neg hk]
          exact h.settled k hq

theorem receiveAll (cs : List (RemoteChange R)) (h : Overlay g rows l.pending)
    (hcs : ∀ c ∈ cs, FiledUnder c.key c.row) :
    Overlay (g.giveChanges cs) (Write.applyAll rows (l.receiveAll cs).writes)
      (l.receiveAll cs).ledger.pending := by
  induction cs generalizing g rows l with
  | nil => exact h
  | cons c cs ih =>
    have hc := h.receive (hcs c List.mem_cons_self)
    have hg : g.giveChanges (c::cs) = (g.give c.key c.row).giveChanges cs := by
      simp only [Account.giveChanges,Account.give,List.map_cons,lastUnder_cons,eq_comm]
    rw [Ledger.receiveAll_cons,Write.applyAll_append,hg]
    exact ih hc (fun c' h' => hcs c' (List.mem_cons_of_mem _ h'))

private theorem reserve (h : Overlay g rows l.pending) {n : Mutation R} {w : Write R} {p : Pending R}
    (hkey : l.pending.find? n.key = none) (hw : Reconciler.optimistic n (rows.find? n.key) = .ok w)
    (hp : p.base = rows.find? n.key) :
    Overlay (g.display n.key (n.outcome? (g.given n.key))) (Write.applyAll rows [w])
      (l.put n.key p).pending := by
  have hv := h.settled _ hkey
  have he := Reconciler.entry_optimistic (hv ▸ h.filed _) hw
  rw [hv] at he
  refine ⟨h.filed,fun k q hq => ?_,fun k hq => ?_⟩
  · rw [Ledger.put,Table.find?_insert_of] at hq
    rw [Write.find?_single he]
    simp only [Account.display]
    split at hq
    · next hk =>
      subst hk
      rw [← Option.some.inj hq,hp,hv,if_pos rfl,if_pos rfl]
      exact ⟨rfl,rfl⟩
    · next hk =>
      rw [if_neg hk,if_neg hk]
      exact h.covered k q hq
  · rw [Ledger.put,Table.find?_insert_of] at hq
    split at hq
    · cases hq
    · next hk =>
      rw [Write.find?_single he,if_neg hk]
      exact h.settled k hq

theorem seed (h : Overlay g rows l.pending) (seeded : List R) :
    Overlay { g with given := fun k =>
        if (l.pending.find? k).isSome then g.given k else lastUnder k (rowEntries seeded) (g.given k) }
      (Write.applyAll rows
        ((seeded.filter fun row => !l.pending.contains (Row.key row)).map .upsert)) l.pending := by
  have hentries : ((seeded.filter fun row => !l.pending.contains (Row.key row)).map Write.upsert).map
      Write.entry = (rowEntries seeded).filter fun e => !l.pending.contains e.1 := by
    rw [rowEntries,List.filter_map,List.map_map]
    rfl
  refine ⟨fun k => ?_,fun k p hp => ?_,fun k hp => ?_⟩
  · dsimp only
    split
    · exact h.filed k
    · exact filedUnder_lastUnder (h.filed k) seeded
  · rw [Write.find?_applyAll,hentries,lastUnder_of_ne]
    · simp only [hp,Option.isSome_some,if_true]
      exact h.covered k p hp
    · rintro e he rfl
      have hn := (List.mem_filter.mp he).2
      simp [Table.contains_eq,hp] at hn
  · rw [Write.find?_applyAll,hentries,lastUnder_filter,h.settled k hp]
    · simp only [hp,Option.isSome_none,Bool.false_eq_true,if_false]
    · rintro e _ rfl
      simp [Table.contains_eq,hp]

theorem image {r : Reconciler R} (h : Overlay g r.store.rows r.ledger.pending) (full : List R) :
    Overlay { g with given := fun k => lastUnder k (rowEntries full) none }
      (Write.applyAll r.store.rows (r.imageWrites (imageOf full)))
      (r.ledger.rebase (imageOf full)).pending := by
  have hi := filed_imageOf full
  refine ⟨fun k => ?_,fun k p hp => ⟨?_,?_⟩,fun k hp => ?_⟩
  · exact filedUnder_lastUnder (filedUnder_none k) full
  · dsimp only
    rw [← find?_imageOf]
    obtain ⟨q,_,_,rfl⟩ := Ledger.find?_rebase_eq_some.mp hp
    rfl
  · rw [Reconciler.find?_imageWrites_of_some hi hp]
    obtain ⟨q,hq,_,rfl⟩ := Ledger.find?_rebase_eq_some.mp hp
    exact (h.covered k q hq).2
  · dsimp only
    rw [Reconciler.find?_imageWrites_of_none hi hp,find?_imageOf]

end Overlay

/-! ### The operations of the reconciler -/

namespace Reconciler

/-- The store of a reconciler is the account, laid over where mutations are pending. -/
def Overlaid (g : Account R) (r : Reconciler R) : Prop := Overlay g r.store.rows r.ledger.pending

variable {g : Account R} {r : Reconciler R}

theorem Overlaid.retire (h : r.Overlaid g) {key : String} {v : Option R} (hv : FiledUnder key v) :
    (r.retire key v).Overlaid (g.give key v) :=
  Overlay.settle h hv (Table.find?_erase_self _ key) (fun _ hk => Table.find?_erase_ne _ hk)

theorem Overlaid.rollBack (h : r.Overlaid g) (key : String) (id : Nat) (e : MutationError) :
    (r.rollBack key id e).Overlaid g := by
  cases hp : r.find? key id with
  | none => rw [rollBack_of_none hp]; exact h
  | some p =>
    rw [rollBack_of_some hp]
    exact Overlay.takeBack h (find?_eq_some.mp hp).1

theorem Overlaid.beginSubmit (h : r.Overlaid g) {s : Staged} {r' : Reconciler R} {m : Sending R}
    (hs : r.beginSubmit s = .ok (r',m)) : r'.Overlaid g := by
  rcases beginSubmit_eq_ok hs with ⟨p,hp,_,_,rfl⟩ | ⟨_,_,_,rfl⟩
  · exact Overlay.put h hp rfl
  · exact h

theorem Overlaid.awaitTxid (h : r.Overlaid g) {key : String} {id : Nat} {t : Txid} {b : Bool}
    {r' : Reconciler R} (ha : r.awaitTxid key id t = .ok (r',b)) : r'.Overlaid g := by
  obtain ⟨p,hp,_,_,rfl⟩ := awaitTxid_eq_ok ha
  split
  · exact Overlay.takeBack h hp
  · exact Overlay.put h hp rfl

/-- A read that ends a record gives its row to the key; a read that fails gives nothing. -/
theorem Overlaid.settle (h : r.Overlaid g) {key : String} {id : Nat} {p : Pending R}
    (hp : r.find? key id = some p) (t : Txid) (m : Mutation R)
    {answer : Except AdapterError (Option R)} (ha : ∀ server, answer = .ok server → FiledUnder key server) :
    (r.settle key id t m answer).1.Overlaid (g.give key (settledValue p answer)) := by
  rw [settle_of_some hp]
  refine Overlaid.retire h ?_
  cases answer with
  | ok server => exact ha server rfl
  | error e =>
    rw [settledValue,(Overlay.covered h key p (find?_eq_some.mp hp).1).1]
    exact Overlay.filed h key

end Reconciler

/-! ### Runs -/

namespace Desk

variable {g : Account R} {d : Desk R}

omit [Row R] in
private theorem find?_isSome_of_record {key : String} {id : Nat} (h : (d.reconciler.find? key id).isSome) :
    (d.record? key).isSome := by
  obtain ⟨p,hp⟩ := Option.isSome_iff_exists.mp h
  rw [record?,(Reconciler.find?_eq_some.mp hp).1]
  rfl

private theorem retires_of_record_eq {a : Action R} {key : String} (h : (d.step a).record? key = d.record? key)
    (id : Nat) : d.retires a key id = false := by
  rw [retires,h,Bool.and_eq_false_iff]
  cases hs : (d.reconciler.find? key id).isSome with
  | false => exact .inl rfl
  | true =>
    right
    rw [Option.isNone_eq_false_iff]
    exact find?_isSome_of_record hs

/-- A read ends no record but that of the submission whose row it brings. -/
theorem flight_of_retires_read {id : Nat} {answer : Except AdapterError (Option R)} {key : String}
    (hr : d.retires (.read id answer) key id) : ∃ f t, d.find? id = some f ∧ f.phase = .reading t ∧
      f.signal = none ∧ f.key = key ∧
      (d.step (.read id answer)).reconciler = (d.reconciler.settle key id t f.mutation answer).1 := by
  have hkeep : (d.step (.read id answer)).record? key ≠ d.record? key := by
    intro he
    rw [retires_of_record_eq he] at hr
    cases hr
  rcases reconciler_read d id answer with he | ⟨f,t,hf,hphase,hsignal,he⟩
  · exact absurd (congrArg (·.ledger.pending.find? key) he) hkeep
  · have hk : f.key = key := by
      by_contra hk
      apply hkeep
      change (d.read id answer).1.reconciler.ledger.pending.find? key = _
      rw [he]
      cases hp : d.reconciler.find? f.key id with
      | none => rw [Reconciler.settle_of_none hp]; rfl
      | some p =>
        rw [Reconciler.settle_of_some hp]
        exact Table.find?_erase_ne _ (Ne.symm hk)
    rw [hk] at he
    exact ⟨f,t,hf,hphase,hsignal,hk,he⟩

private theorem after_read_of_eq {id : Nat} {answer : Except AdapterError (Option R)}
    (h : (d.step (.read id answer)).reconciler = d.reconciler) : g.after d (.read id answer) = g := by
  cases answer with
  | error e => rfl
  | ok server =>
    have hk : ∀ k, d.retires (.read id (.ok server)) k id = false := fun k =>
      retires_of_record_eq (by rw [record?,record?,h]) id
    simp only [Account.after,hk,Bool.false_eq_true,if_false]

/-- A read gives the account the value that it leaves in the store. -/
theorem after_read_of_settle {id : Nat} {answer : Except AdapterError (Option R)} {key : String}
    {p : Pending R} {t : Txid} {m : Mutation R} (hp : d.reconciler.find? key id = some p)
    (hb : p.base = g.given key)
    (h : (d.step (.read id answer)).reconciler = (d.reconciler.settle key id t m answer).1) :
    g.after d (.read id answer) = g.give key (Reconciler.settledValue p answer) := by
  cases answer with
  | error e => rw [Reconciler.settledValue,hb,Overlay.give_given]; rfl
  | ok server =>
    have hr : ∀ k, d.retires (.read id (.ok server)) k id = decide (k = key) := by
      intro k
      by_cases hk : k = key
      · subst hk
        simp only [retires,hp,record?,h,Reconciler.settle_of_some hp,decide_true]
        exact congrArg Option.isNone (Table.find?_erase_self d.reconciler.ledger.pending k)
      · have hsame : (d.step (.read id (.ok server))).record? k = d.record? k := by
          rw [record?,h,Reconciler.settle_of_some hp]
          exact Table.find?_erase_ne d.reconciler.ledger.pending hk
        rw [retires_of_record_eq hsame id]
        simp [hk]
    simp only [Account.after,hr,decide_eq_true_eq,Reconciler.settledValue]
    rfl

/-- One action keeps the store overlaid. -/
theorem overlaid_step (h : d.reconciler.Overlaid g) {a : Action R} (ha : a.Faithful d) :
    (d.step a).reconciler.Overlaid (g.after d a) := by
  cases a with
  | stage fresh m =>
    cases hs : d.stage fresh m with
    | error e => simpa [step,act,Account.after,hs] using h
    | ok x =>
      obtain ⟨d',st⟩ := x
      obtain ⟨r,hr,rfl⟩ := stage_eq_ok hs
      obtain ⟨_,⟨p,hp,_,rfl,rfl⟩ | ⟨w,hp,hw,rfl,rfl⟩⟩ := Reconciler.stage_eq_ok rfl hr
      · simp only [step,act,Account.after,hs]
        exact Overlay.takeBack h hp
      · simp only [step,act,Account.after,hs]
        exact Overlay.reserve h hp hw rfl
  | discard id => exact h
  | submit id =>
    rcases reconciler_submit d id with hr | ⟨s,m,hr⟩
    · exact hr ▸ h
    · exact h.beginSubmit hr
  | abort id => exact h
  | reply id answer =>
    rcases reconciler_reply d id answer with hr | ⟨key,e,hr⟩ | ⟨key,t,b,hr⟩
    · exact hr ▸ h
    · exact hr ▸ h.rollBack key id e
    · exact h.awaitTxid hr
  | expire id => exact reconciler_expire d id ▸ h
  | read id answer =>
    rcases reconciler_read d id answer with hr | ⟨f,t,hf,_,_,hr⟩
    · rw [after_read_of_eq hr]
      exact hr ▸ h
    · cases hp : d.reconciler.find? f.key id with
      | none =>
        rw [Reconciler.settle_of_none hp] at hr
        rw [after_read_of_eq hr]
        exact hr ▸ h
      | some p =>
        have hb := (Overlay.covered h _ p (Reconciler.find?_eq_some.mp hp).1).1
        rw [after_read_of_settle hp hb hr]
        refine hr ▸ h.settle hp t f.mutation fun server hs => ?_
        subst hs
        exact ha f hf
  | advance ms => exact h
  | remote cs =>
    change (d.remote cs).1.reconciler.Overlaid _
    rw [reconciler_remote]
    exact Overlay.receiveAll cs h ha
  | snapshot rows resync =>
    change (d.snapshot rows resync).1.reconciler.Overlaid _
    rw [reconciler_snapshot,Reconciler.Overlaid,Reconciler.rows_applySnapshot,
      Reconciler.ledger_applySnapshot]
    exact Overlay.image h rows
  | seed rows => exact Overlay.seed h rows
  | close => exact ha.elim

theorem overlaid_after (h : d.reconciler.Overlaid g) {as : List (Action R)}
    (ha : d.Along (fun d a => a.Faithful d) as) :
    (d.after as).reconciler.Overlaid (g.along d as) := by
  induction as generalizing d g with
  | nil => exact h
  | cons a as ih => exact ih (overlaid_step h ha.1) ha.2

theorem overlaid_create (capacity timeout : Nat) :
    (create capacity timeout : Desk R).reconciler.Overlaid Account.blank := Overlay.empty

/-- After any run from an empty store, a key with a pending mutation shows the mutation's outcome and
its record keeps what the server gave last; every other key shows what the server gave last. -/
theorem store_overlaid_after_run (capacity timeout : Nat) (as : List (Action R))
    (ha : (create capacity timeout).Along (fun d a => a.Faithful d) as) (key : String) :
    match ((create capacity timeout).after as).record? key with
    | some p => p.base = (Account.blank.along (create capacity timeout) as).given key ∧
        ((create capacity timeout).after as).row? key =
          (Account.blank.along (create capacity timeout) as).shown key
    | none => ((create capacity timeout).after as).row? key =
        (Account.blank.along (create capacity timeout) as).given key := by
  have h := overlaid_after (overlaid_create capacity timeout) ha
  split
  · next p hp => exact Overlay.covered h key p hp
  · next hp => exact Overlay.settled h key hp

/-- A feature is changed here while the server changes it twice, the second time by a full image. -/
def contestedUpdate : List (Action Entity) := [
  .remote [⟨"E1",some (.inState "E1" .ready),[]⟩],
  .stage "" (Entity.setStatus "E1" .validated),
  .submit 1,
  .remote [⟨"E1",some (.inState "E1" .openedInOdk),[⟨41⟩]⟩],
  .reply 1 (.ok ⟨42⟩),
  .snapshot [.inState "E1" .markedBad,.inState "E2" .ready] true]

theorem store_overlaid_contestedUpdate :
    (create 8 30000).Along (fun d a => a.Faithful d) contestedUpdate ∧
      (∃ p, ((create 8 30000).after contestedUpdate).record? "E1" = some p ∧
        p.base = some (.inState "E1" .markedBad)) ∧
      ((create 8 30000).after contestedUpdate).row? "E1" = some (.inState "E1" .validated) := by
  have ha : (create 8 30000).Along (fun d a => a.Faithful d) contestedUpdate := by
    refine ⟨?_,trivial,trivial,?_,trivial,trivial,trivial⟩
    all_goals
      intro c hc
      rw [List.mem_singleton.mp hc]
      exact filedUnder_some rfl
  have h := store_overlaid_after_run 8 30000 contestedUpdate ha "E1"
  have hg : (Account.blank.along (create 8 30000) contestedUpdate).given "E1" =
      some (.inState "E1" .markedBad) := by decide +kernel
  have hs : (Account.blank.along (create 8 30000) contestedUpdate).shown "E1" =
      some (.inState "E1" .validated) := by decide +kernel
  have hp : (((create 8 30000).after contestedUpdate).record? "E1").isSome := by decide +kernel
  obtain ⟨p,hp⟩ := Option.isSome_iff_exists.mp hp
  rw [hp,hg,hs] at h
  exact ⟨ha,⟨p,hp,h.1⟩,h.2⟩

end Desk
end FieldReplica
