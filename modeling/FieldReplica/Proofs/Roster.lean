import FieldReplica.Proofs.Moves
import Mathlib.Data.List.Induction

/-!
# The mutations of a run

Every mutation that a run stages has a number of its own, and whoever holds the number, the submission
under it and the record under it all stand for that mutation. A submission or a record that waits for a
transaction has had it from the server's answer.
-/
namespace FieldReplica

variable {R : Type} [Row R]

namespace Desk

variable {d : Desk R} {id : Nat} {key : String}

theorem after_snoc (d : Desk R) (as : List (Action R)) (a : Action R) :
    d.after (as ++ [a]) = (d.after as).step a := after_append d as [a]

/-- What the actions of a run come to, one after the other. -/
def gather {α : Type} (f : Desk R → Action R → List α) (d : Desk R) : List (Action R) → List α
  | [] => []
  | a::as => f d a ++ (d.step a).gather f as

theorem gather_append {α : Type} (f : Desk R → Action R → List α) (d : Desk R) (as bs : List (Action R)) :
    d.gather f (as ++ bs) = d.gather f as ++ (d.after as).gather f bs := by
  induction as generalizing d with
  | nil => rfl
  | cons a as ih => simp only [List.cons_append,gather,ih,after_cons,List.append_assoc]

theorem gather_snoc {α : Type} (f : Desk R → Action R → List α) (d : Desk R) (as : List (Action R))
    (a : Action R) : d.gather f (as ++ [a]) = d.gather f as ++ f (d.after as) a := by
  rw [gather_append,gather,gather,List.append_nil]

theorem mem_gather {α : Type} {f : Desk R → Action R → List α} {as : List (Action R)} {x : α}
    (h : x ∈ d.gather f as) : ∃ u a v, as = u ++ a::v ∧ x ∈ f (d.after u) a := by
  induction as generalizing d with
  | nil => cases h
  | cons a as ih =>
    rcases List.mem_append.mp h with h | h
    · exact ⟨[],a,as,rfl,h⟩
    · obtain ⟨u,b,v,rfl,hx⟩ := ih h
      exact ⟨a::u,b,v,rfl,hx⟩

/-- If each action adds one thing at most, whose key differs from those of all that is marked and which is
marked from then on, no key comes twice in a run. -/
theorem nodup_gather {α : Type} {f : Desk R → Action R → List α} (key : α → Nat)
    (marked : List (Action R) → α → Prop) (hkeep : ∀ as a x, marked as x → marked (as ++ [a]) x)
    (hnew : ∀ as a, f (d.after as) a = [] ∨
      ∃ x, f (d.after as) a = [x] ∧ marked (as ++ [a]) x ∧ ∀ y, marked as y → key y ≠ key x)
    (as : List (Action R)) : ((d.gather f as).map key).Nodup ∧ ∀ x ∈ d.gather f as, marked as x := by
  induction as using List.reverseRecOn with
  | nil => exact ⟨List.nodup_nil,nofun⟩
  | append_singleton as a ih =>
    obtain ⟨hnodup,hmarked⟩ := ih
    have hold : ∀ x ∈ d.gather f as, marked (as ++ [a]) x := fun x hx => hkeep as a x (hmarked x hx)
    rw [gather_snoc]
    rcases hnew as a with hnone | ⟨x,hone,hx,hfresh⟩
    · rw [hnone,List.append_nil]
      exact ⟨hnodup,hold⟩
    · rw [hone,List.map_append]
      constructor
      · refine List.nodup_append.mpr ⟨hnodup,List.nodup_singleton _,?_⟩
        intro i hi j hj
        obtain ⟨y,hy,rfl⟩ := List.mem_map.mp hi
        rw [List.mem_singleton.mp hj]
        exact hfresh y (hmarked y hy)
      · intro y hy
        rcases List.mem_append.mp hy with hy | hy
        · exact hold y hy
        · rw [List.mem_singleton.mp hy]
          exact hx

/-! ### Numbers -/

/-- The mutations that a run stages, each under its number, in order. -/
def roster (d : Desk R) (as : List (Action R)) : List (Nat × Mutation R) :=
  d.gather (fun d a => (d.entrant? a).toList) as

theorem roster_append (d : Desk R) (as bs : List (Action R)) :
    d.roster (as ++ bs) = d.roster as ++ (d.after as).roster bs := gather_append _ d as bs

theorem roster_snoc (d : Desk R) (as : List (Action R)) (a : Action R) :
    d.roster (as ++ [a]) = d.roster as ++ ((d.after as).entrant? a).toList := gather_snoc _ d as a

/-- A mutation that is staged has the next number and a record under its key, which was free. -/
theorem entrant?_eq_some {a : Action R} {e : Nat × Mutation R} (h : d.entrant? a = some e) :
    e.1 = d.reconciler.nextId ∧ (d.step a).reconciler.nextId = d.reconciler.nextId + 1 ∧
      d.reconciler.closed = false ∧ d.record? e.2.key = none ∧
      ∃ base, (d.step a).record? e.2.key = some ⟨e.1,e.2,.staged,base⟩ := by
  cases a with
  | stage fresh m =>
    rcases stage_cases d fresh m rfl with ⟨_,hn⟩ | ⟨p,_,_,_,hn,_⟩ | ⟨w,hfree,hopen,he,hs⟩
    · cases hn.symm.trans h
    · cases hn.symm.trans h
    · obtain rfl := Option.some.inj (he.symm.trans h)
      rw [hs]
      exact ⟨rfl,rfl,hopen,hfree,_,Table.find?_insert_self _ _ _⟩
  | discard i | submit i | abort i | reply i answer | expire i | read i answer | advance ms | remote cs
  | snapshot rows resync | seed rows | close => cases h

/-- A list of mutations accounts for a desk: the numbers are different, and a record under a key is that
of the last mutation of the key. -/
structure Enrolled (d : Desk R) (l : List (Nat × Mutation R)) : Prop where
  solo : d.Solo
  distinct : (l.map (·.1)).Nodup
  known : ∀ e ∈ l, e.1 < d.reconciler.nextId
  held : ∀ s ∈ d.handles, ∃ m, (s.id,m) ∈ l ∧ m.key = s.key
  flying : ∀ id f, d.find? id = some f → (id,f.mutation) ∈ l ∧ f.mutation.key = f.key
  recorded : ∀ key p, d.record? key = some p →
    (l.filter (·.2.key = key)).getLast? = some (p.id,p.mutation)

variable {l : List (Nat × Mutation R)}

theorem Enrolled.mem_of_record (h : d.Enrolled l) {p : Pending R} (hp : d.record? key = some p) :
    (p.id,p.mutation) ∈ l ∧ p.mutation.key = key := by
  have hmem := List.mem_of_getLast? (h.recorded key p hp)
  obtain ⟨hl,hk⟩ := List.mem_filter.mp hmem
  exact ⟨hl,of_decide_eq_true hk⟩

theorem Enrolled.unique (h : d.Enrolled l) {m n : Mutation R} (hm : (id,m) ∈ l) (hn : (id,n) ∈ l) :
    m = n :=
  congrArg Prod.snd (List.inj_on_of_nodup_map h.distinct hm hn rfl)

theorem Enrolled.record_of_progress (h : d.Enrolled l) {m : Mutation R} (hm : (id,m) ∈ l) {g : Progress}
    (hg : d.reconciler.progress? key id = some g) : key = m.key ∧
      ∃ p, d.record? key = some p ∧ p.id = id ∧ p.mutation = m ∧ p.progress = g := by
  obtain ⟨p,hp,rfl,hprogress⟩ := Reconciler.progress?_eq_some.mp hg
  obtain ⟨hpl,hk⟩ := h.mem_of_record hp
  have hpm : p.mutation = m := h.unique hpl hm
  exact ⟨by rw [← hpm,hk],p,hp,rfl,hpm,hprogress⟩

/-- The submission of a mutation is for its key. -/
theorem Enrolled.key_of_flight (h : d.Enrolled l) {f : Flight R} (hf : d.find? id = some f) {g : Progress}
    (hg : d.reconciler.progress? key id = some g) : f.key = key := by
  obtain ⟨hm,hk⟩ := h.flying id f hf
  rw [(h.record_of_progress hm hg).1,hk]

theorem enrolled_step (h : d.Enrolled l) (a : Action R) :
    (d.step a).Enrolled (l ++ (d.entrant? a).toList) := by
  have hold : ∀ e ∈ l, e ∈ l ++ (d.entrant? a).toList := fun e he => List.mem_append_left _ he
  refine ⟨solo_step h.solo a,?_,?_,?_,?_,?_⟩
  · cases he : d.entrant? a with
    | none => rw [Option.toList_none,List.append_nil]; exact h.distinct
    | some e =>
      rw [Option.toList_some,List.map_append]
      refine List.nodup_append.mpr ⟨h.distinct,List.nodup_singleton _,?_⟩
      intro i hi j hj
      obtain ⟨x,hx,rfl⟩ := List.mem_map.mp hi
      have hj : j = d.reconciler.nextId := (List.mem_singleton.mp hj).trans (entrant?_eq_some he).1
      rw [hj]
      exact Nat.ne_of_lt (h.known x hx)
  · intro e he
    rcases List.mem_append.mp he with he | he
    · exact Nat.lt_of_lt_of_le (h.known e he) (nextId_le_step d a)
    · obtain ⟨hnum,hnext,_⟩ := entrant?_eq_some (Option.mem_toList.mp he)
      omega
  · intro s hs
    rcases mem_handles_step hs with hs | ⟨m,he,hk,_⟩
    · obtain ⟨m,hm,hk⟩ := h.held s hs
      exact ⟨m,hold _ hm,hk⟩
    · exact ⟨m,List.mem_append_right _ (Option.mem_toList.mpr he),hk⟩
  · intro id f hf
    cases flown_step h.solo hf with
    | begun _ _ hp hpid =>
      obtain ⟨hm,hk⟩ := h.mem_of_record hp
      exact ⟨hold _ (hpid ▸ hm),hk⟩
    | kept hg | accepted hg _ _ _ | expired hg _ _ | told hg _ _ _ =>
      obtain ⟨hm,hk⟩ := h.flying id _ hg
      exact ⟨hold _ hm,hk⟩
  · intro key p hp
    -- While a key has a record no other mutation of the key is staged.
    have hsame : ∀ q, d.record? key = some q → (d.entrant? a).toList.filter (·.2.key = key) = [] := by
      intro q hq
      rw [List.filter_eq_nil_iff]
      intro e he hk
      have hfree := (entrant?_eq_some (Option.mem_toList.mp he)).2.2.2.1
      rw [of_decide_eq_true hk,hq] at hfree
      cases hfree
    have hstays : ∀ q, d.record? key = some q →
        ((l ++ (d.entrant? a).toList).filter (·.2.key = key)).getLast? = some (q.id,q.mutation) := by
      intro q hq
      rw [List.filter_append,hsame q hq,List.append_nil]
      exact h.recorded key q hq
    cases recorded_step hp with
    | made _ hk he =>
      simp [he,hk]
    | kept _ hq | sent _ _ hq _ | accepted _ _ _ hq =>
      have hlast := hstays _ hq
      exact hlast

theorem enrolled_create (capacity timeout : Nat) : (create capacity timeout : Desk R).Enrolled [] where
  solo := List.nodup_nil
  distinct := List.nodup_nil
  known := nofun
  held := nofun
  flying := nofun
  recorded := nofun

theorem enrolled_after (h : d.Enrolled l) (as : List (Action R)) :
    (d.after as).Enrolled (l ++ d.roster as) := by
  induction as generalizing d l with
  | nil => rw [roster,gather,List.append_nil]; exact h
  | cons a as ih =>
    rw [roster,gather,← List.append_assoc]
    exact ih (enrolled_step h a)

theorem enrolled_run (capacity timeout : Nat) (as : List (Action R)) :
    ((create capacity timeout).after as).Enrolled ((create capacity timeout).roster as) :=
  enrolled_after (enrolled_create capacity timeout) as

/-- A mutation that is pending has been so since it was staged. -/
theorem pending_of_prefix (capacity timeout : Nat) {u : List (Action R)} {e : Nat × Mutation R}
    (hp : ((create capacity timeout).after u).reconciler.progress? e.2.key e.1 ≠ none)
    {x : List (Action R)} (hx : x <+: u) (he : e ∈ (create capacity timeout).roster x) :
    ((create capacity timeout).after x).reconciler.progress? e.2.key e.1 ≠ none := by
  obtain ⟨y,rfl⟩ := hx
  intro hn
  rw [after_append] at hp
  exact hp (retired_after ⟨(enrolled_run capacity timeout x).known e he,hn⟩ y).gone

/-! ### Transactions -/

/-- In a run the server accepts a mutation as a transaction at some moment: its answer reaches the
submission that waits for it. -/
def AcceptedAt (d : Desk R) (as : List (Action R)) (key : String) (id : Nat) (t : Txid) (moment : Nat) :
    Prop :=
  ∃ u v f, as = u ++ .reply id (.ok t)::v ∧ (d.after u).find? id = some f ∧ f.phase = .reply ∧
    f.key = key ∧ (d.after u).now = moment

def Accepted (d : Desk R) (as : List (Action R)) (key : String) (id : Nat) (t : Txid) : Prop :=
  ∃ moment, d.AcceptedAt as key id t moment

theorem AcceptedAt.append {as : List (Action R)} {t : Txid} {moment : Nat}
    (h : d.AcceptedAt as key id t moment) (bs : List (Action R)) :
    d.AcceptedAt (as ++ bs) key id t moment := by
  obtain ⟨u,v,f,rfl,hf⟩ := h
  exact ⟨u,v ++ bs,f,by simp,hf⟩

theorem Accepted.append {as : List (Action R)} {t : Txid} (h : d.Accepted as key id t)
    (bs : List (Action R)) : d.Accepted (as ++ bs) key id t :=
  ⟨h.choose,h.choose_spec.append bs⟩

theorem acceptedAt_snoc (as : List (Action R)) {f : Flight R} {t : Txid} (hf : (d.after as).find? id = some f)
    (hphase : f.phase = .reply) :
    d.AcceptedAt (as ++ [.reply id (.ok t)]) f.key id t (d.after as).now :=
  ⟨as,[],f,rfl,hf,hphase,rfl,rfl⟩

/-- Whatever waits for a transaction has it from the server's answer, and a deadline counts from there. -/
structure Answered (d : Desk R) (as : List (Action R)) : Prop where
  records : ∀ key p t, (d.after as).record? key = some p → p.progress = .awaiting t →
    d.Accepted as key p.id t
  waiting : ∀ id f t deadline, (d.after as).find? id = some f → f.phase = .confirmation t deadline →
    ∃ moment, d.AcceptedAt as f.key id t moment ∧ deadline = moment + d.timeout
  reading : ∀ id f t, (d.after as).find? id = some f → f.phase = .reading t → d.Accepted as f.key id t

private theorem timeout_after (d : Desk R) (as : List (Action R)) : (d.after as).timeout = d.timeout := by
  induction as generalizing d with
  | nil => rfl
  | cons a as ih => exact (ih (d.step a)).trans (clock_step d a).1

private theorem answered_snoc {as : List (Action R)} (hs : (d.after as).Solo) (h : d.Answered as) (a : Action R) :
    d.Answered (as ++ [a]) := by
  refine ⟨?_,?_,?_⟩
  · intro key p t hp hprogress
    rw [after_snoc] at hp
    cases recorded_step hp with
    | made _ _ _ => cases hprogress
    | kept _ hq => exact (h.records key _ t hq hprogress).append [a]
    | sent _ _ _ _ => cases hprogress
    | accepted hf hphase hk hq =>
      cases hprogress
      rw [← hk]
      exact ⟨_,acceptedAt_snoc as hf hphase⟩
  · intro id f t deadline hf hphase
    rw [after_snoc] at hf
    cases flown_step hs hf with
    | begun _ _ _ _ => cases hphase
    | kept hg =>
      obtain ⟨moment,hmoment,hd⟩ := h.waiting id _ t deadline hg hphase
      exact ⟨moment,hmoment.append [a],hd⟩
    | accepted hg hreply _ _ =>
      cases hphase
      have hmoment := acceptedAt_snoc (t := t) as hg hreply
      exact ⟨_,hmoment,by rw [timeout_after]⟩
    | expired _ _ _ => cases hphase
    | told _ hreading _ _ =>
      rw [Flight.isReading,hphase] at hreading
      cases hreading
  · intro id f t hf hphase
    rw [after_snoc] at hf
    cases flown_step hs hf with
    | begun _ _ _ _ => cases hphase
    | kept hg => exact (h.reading id _ t hg hphase).append [a]
    | accepted _ _ _ _ => cases hphase
    | expired hg hwait _ =>
      cases hphase
      obtain ⟨moment,hmoment,_⟩ := h.waiting id _ t _ hg hwait
      exact ⟨moment,hmoment.append _⟩
    | told hg _ _ _ => exact (h.reading id _ t hg hphase).append [a]

theorem answered_run (capacity timeout : Nat) (as : List (Action R)) :
    (create capacity timeout : Desk R).Answered as := by
  induction as using List.reverseRecOn with
  | nil => exact ⟨nofun,nofun,nofun⟩
  | append_singleton as a ih => exact answered_snoc (enrolled_run capacity timeout as).solo ih a

end Desk
end FieldReplica
