import FieldReplica.Proofs.Coherence
import FieldReplica.Proofs.Verdicts

/-!
# One result and one verdict

A submission ends once and a record is ruled on once: after that the mutation is never heard of again.
-/
namespace FieldReplica

variable {R : Type} [Row R]

/-- A run of a reconciler that stays open. -/
def Open (as : List (Action R)) : Prop := ∀ a ∈ as, a ≠ .close

omit [Row R] in
theorem open_cons {a : Action R} {as : List (Action R)} : Open (a::as) ↔ a ≠ .close ∧ Open as :=
  List.forall_mem_cons

omit [Row R] in
theorem open_append {as bs : List (Action R)} : Open (as ++ bs) ↔ Open as ∧ Open bs :=
  List.forall_mem_append

namespace Desk

variable {d : Desk R} {id : Nat} {key : String}

/-! ### Submissions -/

/-- Every action leaves what is known of a mutation fitting together, and a submission that ends is
spent. -/
theorem coherent_step (hd : d.Coherent id) {a : Action R} (ha : a ≠ .close) :
    (d.step a).Coherent id ∧ (results id (d.act a).2 = [] ∨ (d.step a).Spent id) := by
  have hother : ∀ i, a.subject? = some i → id ≠ i →
      (d.step a).Coherent id ∧ (results id (d.act a).2 = [] ∨ (d.step a).Spent id) := by
    intro i hi hne
    obtain ⟨hhides,hresults⟩ := hides_step hi hne
    exact ⟨coherent_of_hides hhides hd,.inl hresults⟩
  cases a with
  | stage fresh m =>
    refine ⟨coherent_stage hd fresh m,.inl ?_⟩
    rw [act]
    split <;> rfl
  | discard i =>
    by_cases hid : id = i
    · subst hid; exact ⟨coherent_discard hd,.inl rfl⟩
    · exact hother i rfl hid
  | submit i =>
    by_cases hid : id = i
    · subst hid; exact coherent_submit hd
    · exact hother i rfl hid
  | abort i =>
    by_cases hid : id = i
    · subst hid; exact ⟨coherent_abort hd,.inl rfl⟩
    · exact hother i rfl hid
  | reply i answer =>
    by_cases hid : id = i
    · subst hid; exact coherent_reply hd answer
    · exact hother i rfl hid
  | expire i =>
    by_cases hid : id = i
    · subst hid; exact coherent_expire hd
    · exact hother i rfl hid
  | read i answer =>
    by_cases hid : id = i
    · subst hid; exact coherent_read hd answer
    · exact hother i rfl hid
  | advance ms | seed rows => exact ⟨⟨hd.fresh,hd.held,hd.flying⟩,.inl rfl⟩
  | remote cs => exact coherent_wake hd (Reconciler.heard_applyRemote d.reconciler cs)
  | snapshot rows resync =>
    exact coherent_wake hd (Reconciler.heard_applySnapshot d.reconciler rows resync)
  | close => exact absurd rfl ha

omit [Row R] in
theorem coherent_create (capacity timeout : Nat) : (create capacity timeout : Desk R).Coherent id where
  fresh _ := ⟨nofun,rfl,fun _ => rfl⟩
  held _ hs := by cases hs
  flying _ hf := by cases hf

theorem coherent_after (hd : d.Coherent id) {as : List (Action R)} (ha : Open as) :
    (d.after as).Coherent id := by
  induction as generalizing d with
  | nil => exact hd
  | cons a as ih => exact ih (coherent_step hd (open_cons.mp ha).1).1 (open_cons.mp ha).2

/-- A spent mutation stays spent and has no further result. -/
theorem spent_step (hd : d.Spent id) {a : Action R} (ha : a ≠ .close) :
    (d.step a).Spent id ∧ results id (d.act a).2 = [] := by
  have hother : ∀ i, a.subject? = some i → id ≠ i →
      (d.step a).Spent id ∧ results id (d.act a).2 = [] := by
    intro i hi hne
    obtain ⟨hhides,hresults⟩ := hides_step hi hne
    exact ⟨spent_of_hides hhides hd,hresults⟩
  have hidle : d.act a = (d,[]) → (d.step a).Spent id ∧ results id (d.act a).2 = [] := by
    intro h
    rw [step,h]
    exact ⟨hd,rfl⟩
  have hwake : ∀ (r : Reconciler R) cs, r.nextId = d.reconciler.nextId →
      (({ d with reconciler := r } : Desk R).wake cs).1.Spent id ∧
        results id (({ d with reconciler := r } : Desk R).wake cs).2 = [] := by
    intro r cs hr
    obtain ⟨hn,hresults⟩ := wake_of_none (d := { d with reconciler := r }) hd.landed cs
    refine ⟨⟨?_,?_,hn⟩,hresults⟩
    · rw [reconciler_wake]
      exact hr.symm ▸ hd.known
    · rw [handles_wake]
      exact hd.unheld
  cases a with
  | stage fresh m =>
    cases hs : d.stage fresh m with
    | error e => simp only [step,act,hs]; exact ⟨hd,rfl⟩
    | ok x =>
      obtain ⟨d',st⟩ := x
      obtain ⟨r,hr,rfl⟩ := stage_eq_ok hs
      simp only [step,act,hs]
      obtain ⟨_,⟨p,_,_,rfl,rfl⟩ | ⟨w,_,_,rfl,rfl⟩⟩ := Reconciler.stage_eq_ok rfl hr
      · exact ⟨⟨hd.known,hd.unheld,hd.landed⟩,rfl⟩
      · refine ⟨⟨Nat.lt_succ_of_lt hd.known,fun s hs => ?_,hd.landed⟩,rfl⟩
        rcases List.mem_append.mp hs with hs | hs
        · exact hd.unheld s hs
        · rw [List.mem_singleton.mp hs]
          exact Nat.ne_of_gt hd.known
  | discard i =>
    exact ⟨⟨hd.known,fun s hs => hd.unheld s (List.mem_filter.mp hs).1,hd.landed⟩,rfl⟩
  | submit i =>
    by_cases hid : id = i
    · subst hid
      exact hidle (submit_of_unheld hd.unheld)
    · exact hother i rfl hid
  | abort i =>
    exact ⟨⟨hd.known,hd.unheld,(find?_without d i id).trans (by rw [hd.landed,ite_self])⟩,rfl⟩
  | reply i answer =>
    by_cases hid : id = i
    · subst hid
      exact hidle (by simp only [act,reply,hd.landed])
    · exact hother i rfl hid
  | expire i =>
    by_cases hid : id = i
    · subst hid
      exact hidle (by simp only [act,expire,hd.landed])
    · exact hother i rfl hid
  | read i answer =>
    by_cases hid : id = i
    · subst hid
      exact hidle (by simp only [act,read,hd.landed])
    · exact hother i rfl hid
  | advance ms | seed rows => exact ⟨⟨hd.known,hd.unheld,hd.landed⟩,rfl⟩
  | remote cs => exact hwake _ _ (Reconciler.heard_applyRemote d.reconciler cs).next
  | snapshot rows resync => exact hwake _ _ (Reconciler.heard_applySnapshot d.reconciler rows resync).next
  | close => exact absurd rfl ha

theorem spent_after (hd : d.Spent id) {as : List (Action R)} (ha : Open as) :
    (d.after as).Spent id ∧ results id (d.effects as) = [] := by
  induction as generalizing d with
  | nil => exact ⟨hd,rfl⟩
  | cons a as ih =>
    obtain ⟨hd',hresults⟩ := spent_step hd (open_cons.mp ha).1
    obtain ⟨hspent,hrest⟩ := ih hd' (open_cons.mp ha).2
    exact ⟨hspent,by rw [effects,results_append,hresults,hrest]; rfl⟩

/-- Once there is a result the mutation is spent. -/
theorem results_effects (hd : d.Coherent id) {as : List (Action R)} (ha : Open as) :
    results id (d.effects as) = [] ∨ (d.after as).Spent id := by
  induction as generalizing d with
  | nil => exact .inl rfl
  | cons a as ih =>
    obtain ⟨hd',hresult⟩ := coherent_step hd (open_cons.mp ha).1
    rw [effects,results_append,after_cons]
    rcases hresult with hresult | hspent
    · rw [hresult]
      exact ih hd' (open_cons.mp ha).2
    · exact .inr (spent_after hspent (open_cons.mp ha).2).1

/-! ### Records -/

/-- A mutation that has no record under its key, and never will have one again. -/
structure Retired (d : Desk R) (key : String) (id : Nat) : Prop where
  known : id < d.reconciler.nextId
  gone : d.reconciler.progress? key id = none

/-- What an action can do to the records: bring one mutation on, end some by the stream's word, make a
record for a new mutation, or drop them all. -/
theorem records_step (d : Desk R) (a : Action R) :
    (∃ i, Reconciler.Spares i d.reconciler (d.step a).reconciler) ∨
    (∃ cs, Reconciler.Heard cs d.reconciler (d.step a).reconciler) ∨
    (∃ k p w, p.id = d.reconciler.nextId ∧ (d.step a).reconciler = ({ d.reconciler with
      ledger := d.reconciler.ledger.put k p, nextId := d.reconciler.nextId + 1 } :
        Reconciler R).write [w]) ∨
    a = .close := by
  have hrefl : (d.step a).reconciler = d.reconciler →
      ∃ i, Reconciler.Spares i d.reconciler (d.step a).reconciler := by
    intro h
    rw [h]
    exact ⟨0,.refl _ _⟩
  cases a with
  | stage fresh m =>
    cases hs : d.stage fresh m with
    | error e => exact .inl (hrefl (by simp only [step,act,hs]))
    | ok x =>
      obtain ⟨d',st⟩ := x
      obtain ⟨r,hr,rfl⟩ := stage_eq_ok hs
      simp only [step,act,hs]
      obtain ⟨_,⟨p,hp,_,_,rfl⟩ | ⟨w,_,_,_,rfl⟩⟩ := Reconciler.stage_eq_ok rfl hr
      · exact .inl ⟨_,Reconciler.spares_retire hp _⟩
      · exact .inr (.inr (.inl ⟨_,_,w,rfl,rfl⟩))
  | discard i | abort i | advance ms => exact .inl (hrefl rfl)
  | seed rows => exact .inl ⟨0,rfl,fun _ _ _ => rfl,fun _ _ h => h⟩
  | close => exact .inr (.inr (.inr rfl))
  | submit i =>
    rcases reconciler_submit d i with hr | ⟨s,m,hr⟩
    · exact .inl (hrefl hr)
    · exact .inl ⟨_,Reconciler.spares_beginSubmit hr⟩
  | reply i answer =>
    rcases reconciler_reply d i answer with hr | ⟨k,e,hr⟩ | ⟨k,t,b,hr⟩
    · exact .inl (hrefl hr)
    · exact .inl ⟨i,hr ▸ Reconciler.spares_rollBack d.reconciler k i e⟩
    · exact .inl ⟨i,Reconciler.spares_awaitTxid hr⟩
  | expire i => exact .inl (hrefl (reconciler_expire d i))
  | read i answer =>
    rcases reconciler_read d i answer with hr | ⟨f,t,_,_,_,hr⟩
    · exact .inl (hrefl hr)
    · exact .inl ⟨i,hr ▸ Reconciler.spares_settle d.reconciler f.key i t f.mutation answer⟩
  | remote cs =>
    exact .inr (.inl ⟨_,reconciler_remote d cs ▸ Reconciler.heard_applyRemote d.reconciler cs⟩)
  | snapshot rows resync =>
    exact .inr (.inl ⟨_,reconciler_snapshot d rows resync ▸
      Reconciler.heard_applySnapshot d.reconciler rows resync⟩)

theorem nextId_le_step (d : Desk R) (a : Action R) :
    d.reconciler.nextId ≤ (d.step a).reconciler.nextId := by
  rcases records_step d a with ⟨i,h⟩ | ⟨cs,h⟩ | ⟨k,p,w,_,h⟩ | rfl
  · exact Nat.le_of_eq h.next.symm
  · exact Nat.le_of_eq h.next.symm
  · rw [h]
    exact Nat.le_succ _
  · exact Nat.le_refl _

/-- No action makes a record for a mutation that has been staged before. -/
theorem retired_step (hd : d.Retired key id) (a : Action R) : (d.step a).Retired key id := by
  refine ⟨Nat.lt_of_lt_of_le hd.known (nextId_le_step d a),?_⟩
  rcases records_step d a with ⟨i,h⟩ | ⟨cs,h⟩ | ⟨k,p,w,hp,h⟩ | rfl
  · exact h.recedes key id hd.gone
  · by_cases hc : ∃ c ∈ cs, c.key = key ∧ c.id = id
    · obtain ⟨c,hc,rfl,rfl⟩ := hc
      exact (h.gone c hc).2
    · rw [h.stays key id fun c hcs hk hid => hc ⟨c,hcs,hk,hid⟩]
      exact hd.gone
  · rw [h,progress?_reserve,hp,if_neg (Nat.ne_of_gt hd.known),hd.gone,ite_self]
  · rfl

theorem retired_after (hd : d.Retired key id) (as : List (Action R)) : (d.after as).Retired key id := by
  induction as generalizing d with
  | nil => exact hd
  | cons a as ih => exact ih (retired_step hd a)

omit [Row R] in
theorem isSome_find? (d : Desk R) (key : String) (id : Nat) :
    (d.reconciler.find? key id).isSome = (d.reconciler.progress? key id).isSome := by
  rw [Reconciler.progress?,Option.isSome_map]

/-- There is no verdict on a retired mutation. -/
theorem verdictsOn_of_retired (hd : d.Retired key id) (as : List (Action R)) :
    d.verdictsOn key id as = [] := by
  induction as generalizing d with
  | nil => rfl
  | cons a as ih =>
    rw [verdictsOn,isSome_find?,hd.gone,ih (retired_step hd a)]
    rfl

/-- Once there is a verdict the mutation is retired. -/
theorem verdictsOn_eq (hd : d.Coherent id) {as : List (Action R)} (ha : Open as) :
    d.verdictsOn key id as = [] ∨ (d.after as).Retired key id := by
  induction as generalizing d with
  | nil => exact .inl rfl
  | cons a as ih =>
    have hd' := (coherent_step hd (open_cons.mp ha).1).1
    rw [verdictsOn,after_cons,isSome_find?]
    cases hp : d.reconciler.progress? key id with
    | none => exact ih hd' (open_cons.mp ha).2
    | some g =>
      cases hr : (d.step a).reconciler.progress? key id with
      | some g' =>
        obtain ⟨p,hp',_⟩ := Reconciler.progress?_eq_some.mp hr
        have hrecord : ((d.step a).record? key).isSome := by rw [record?,hp']; rfl
        rw [ruling_of_record hrecord]
        exact ih hd' (open_cons.mp ha).2
      | none =>
        have hk := Nat.lt_of_lt_of_le (hd.known_of_progress hp) (nextId_le_step d a)
        exact .inr (retired_after ⟨hk,hr⟩ as)

end Desk
end FieldReplica
