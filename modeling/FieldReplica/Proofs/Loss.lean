import FieldReplica.Proofs.Grounds

/-!
# Lost mutations

A mutation that the server accepted is given up as lost when a row is read that does not show it, and also
when the row cannot be read at all. In the second case nothing is known of the server: a run gives up only what
the server does not have exactly if none of its reads fails while the mutation is pending.
-/
namespace FieldReplica

variable {R : Type} [Row R]

namespace Desk

variable {d : Desk R} {id : Nat} {key : String} {t : Txid} {a : Action R}

/-! ### Losses -/

private theorem ends_of_lost (h : .error (.lost key t) ∈ results id (d.act a).2) :
    d.Ends key id a (.rolledBack (.lost key t)) := by
  generalize hx : (.error (.lost key t) : Except MutationError Outcome) = x at h
  cases returning_of_result h with
  | lost hends =>
    cases hx
    exact hends
  | @refused e => cases e <;> cases hx
  | closed | cancelled | ended _ | word _ _ _ | told _ _ => cases hx

private theorem flight_of_lost (h : d.Ends key id a (.rolledBack (.lost key t))) :
    ∃ f answer, a = .read id answer ∧ d.find? id = some f ∧ f.phase = .reading t ∧ f.key = key ∧
      ∀ server, answer = .ok server → f.mutation.isReflectedBy server = false := by
  generalize hw : Departure.rolledBack (.lost key t) = w at h
  cases h with
  | withdrawn _ _ _ | overtaken _ _ _ _ _ _ | shown _ _ _ _ | imaged _ _ _ _ | found _ _ _ _ _ _ _ => cases hw
  | @refused _ _ e _ _ _ _ _ => cases e <;> cases hw
  | @lost f _ _ answer hf hphase _ hk _ _ hother =>
    cases hw
    exact ⟨f,answer,rfl,hf,hphase,hk,hother⟩

/-! ### Grounds for a loss -/

/-- Whoever is told that a mutation is lost is told so of a row that was read and does not show it. -/
def LossFounded (d : Desk R) (a : Action R) : Prop :=
  ∀ id key t, .error (.lost key t) ∈ results id (d.act a).2 → ∃ f server, d.find? id = some f ∧
    a = .read id (.ok server) ∧ f.mutation.isReflectedBy server = false

/-- No read fails that ends a record. -/
def ReadsThrough (d : Desk R) (a : Action R) : Prop :=
  ∀ id key e, a = .read id (.error e) → d.retires a key id = false

/-- A failed read that ends a record gives up its mutation as lost. -/
theorem lost_of_failed_read {e : AdapterError} (hr : d.retires (.read id (.error e)) key id) :
    ∃ t, .error (.lost key t) ∈ results id (d.act (.read id (.error e))).2 := by
  have hsome := (Bool.and_eq_true_iff.mp hr).1
  obtain ⟨p,hp⟩ := Option.isSome_iff_exists.mp hsome
  obtain ⟨f,t,hf,hphase,hsignal,hk,_⟩ := flight_of_retires_read hr
  obtain ⟨hrecord,hid⟩ := Reconciler.find?_eq_some.mp hp
  have hends : d.Ends key id (.read id (.error e)) (.rolledBack (.lost key t)) :=
    .lost hf hphase hsignal hk hrecord hid nofun
  refine ⟨t,?_⟩
  rw [(result_of_rolledBack hends).2]
  exact List.mem_singleton_self _

private theorem lossFounded_iff : d.LossFounded a ↔ d.ReadsThrough a := by
  constructor
  · rintro h id key e rfl
    by_contra hr
    obtain ⟨t,hlost⟩ := lost_of_failed_read (Bool.not_eq_false _ ▸ hr)
    obtain ⟨_,_,_,ha,_⟩ := h id key t hlost
    cases ha
  · intro h id key t hlost
    have hends := ends_of_lost hlost
    obtain ⟨hgone,_⟩ := ruling_of_ends hends
    obtain ⟨p,hp,hid⟩ := hends.record
    obtain ⟨f,answer,rfl,hf,_,_,hother⟩ := flight_of_lost hends
    cases answer with
    | ok server => exact ⟨f,server,hf,rfl,hother server rfl⟩
    | error e =>
      have hkept := h id key e rfl
      rw [retires,Reconciler.find?_eq_some.mpr ⟨hp,hid⟩,hgone] at hkept
      cases hkept

/-! ### Runs -/

private theorem asked_of_reading (capacity timeout : Nat) {as : List (Action R)} {f : Flight R}
    (hf : ((create capacity timeout).after as).find? id = some f) (hphase : f.phase = .reading t) :
    ∃ u b v, as = u ++ b::v ∧ (id,f.key) ∈ ((create capacity timeout).after u).reading b := by
  induction as using List.reverseRecOn generalizing f with
  | nil => cases hf
  | append_singleton as b ih =>
    have hlater : ∀ g : Flight R, ((create capacity timeout).after as).find? id = some g →
        g.phase = .reading t → ∃ u c v, as ++ [b] = u ++ c::v ∧
          (id,g.key) ∈ ((create capacity timeout).after u).reading c := by
      intro g hg hreading
      obtain ⟨u,c,v,rfl,hc⟩ := ih hg hreading
      exact ⟨u,c,v ++ [b],by simp,hc⟩
    rw [after_snoc] at hf
    cases flown_step (enrolled_run capacity timeout as).solo hf with
    | begun _ _ _ _ | accepted _ _ _ _ => cases hphase
    | kept hg => exact hlater _ hg hphase
    | told hg _ _ _ =>
      have hasked := hlater _ hg hphase
      exact hasked
    | @expired g _ _ hg hwait hdue =>
      refine ⟨as,.expire id,[],rfl,?_⟩
      obtain ⟨i,k,m,phase,signal⟩ := g
      obtain rfl : phase = _ := hwait
      simp only [reading,expire,hg,if_pos hdue]
      exact List.mem_singleton_self _

/-- What goes before a loss that is reported with an action: the server accepted the mutation, its transaction
stayed away for as long as it may, the row was asked for then, and no row has come that shows the mutation. -/
structure GivenUp (d : Desk R) (u : List (Action R)) (a : Action R) (key : String) (id : Nat) (t : Txid) :
    Prop where
  accepted : d.Accepted u key id t
  asked : ∃ x b y, u = x ++ b::y ∧ (id,key) ∈ (d.after x).reading b ∧ d.Overdue x key id
  answered : ∃ m answer, (id,m) ∈ d.roster u ∧ m.key = key ∧ a = .read id answer ∧
    ∀ server, answer = .ok server → m.isReflectedBy server = false
  told : (d.after u).ruling a key = [.rolledBack key (MutationError.lost key t).message]

private theorem givenUp_of_lost (capacity timeout : Nat) {u : List (Action R)}
    (h : .error (.lost key t) ∈ results id (((create capacity timeout).after u).act a).2) :
    (create capacity timeout).GivenUp u a key id t := by
  have hends := ends_of_lost h
  have hruled := (ruling_of_ends hends).2
  obtain ⟨f,answer,rfl,hf,hphase,rfl,hother⟩ := flight_of_lost hends
  have haccepted := (answered_run (R := R) capacity timeout u).reading id f t hf hphase
  obtain ⟨hmem,hkey⟩ := (enrolled_run (R := R) capacity timeout u).flying id f hf
  obtain ⟨x,b,y,hsplit,hasked⟩ := asked_of_reading capacity timeout hf hphase
  have hoverdue := (overdue_of_reading capacity timeout hasked).1
  exact ⟨haccepted,⟨x,b,y,hsplit,hasked,hoverdue⟩,⟨f.mutation,answer,hmem,hkey,rfl,hother⟩,hruled⟩

/-- In every run, all that is reported as lost is so because a row was read that does not show it exactly if
no read fails that ends a record. Whatever is reported as lost was accepted before, has waited for its
transaction in vain, and was not shown by any row that came for it. -/
theorem lost_founded_iff (capacity timeout : Nat) (as : List (Action R)) :
    ((create capacity timeout).Along LossFounded as ↔ (create capacity timeout).Along ReadsThrough as) ∧
      ∀ u a v, as = u ++ a::v → ∀ key id t,
        .error (.lost key t) ∈ results id (((create capacity timeout).after u).act a).2 →
          (create capacity timeout).GivenUp u a key id t := by
  refine ⟨?_,fun u a v _ key id t h => givenUp_of_lost capacity timeout h⟩
  have hsame : LossFounded (R := R) = ReadsThrough := by
    funext d a
    exact propext lossFounded_iff
  rw [hsame]

/-- A change is accepted, its transaction stays away, and the row that is asked for is answered in some way. -/
def unheardOf (answer : Except AdapterError (Option Entity)) : List (Action Entity) := [
  .remote [⟨"E1",some (.inState "E1" .ready),[⟨41⟩]⟩],
  .stage "" (Entity.setStatus "E1" .validated),
  .submit 1,
  .reply 1 (.ok ⟨42⟩),
  .advance 30000,
  .expire 1,
  .read 1 answer]

/-- The server has the row as it was before. -/
theorem lost_founded_iff_rowUnchanged :
    let as := unheardOf (.ok (some (.inState "E1" .ready)))
    (create 8 30000).Along ReadsThrough as ∧ (create 8 30000).Along LossFounded as ∧
      results 1 ((create 8 30000).effects as) = [.error (.lost "E1" ⟨42⟩)] ∧
      (create 8 30000).GivenUp (as.take 6) (.read 1 (.ok (some (.inState "E1" .ready)))) "E1" 1 ⟨42⟩ := by
  intro as
  have hthrough : (create 8 30000).Along ReadsThrough as :=
    ⟨nofun,nofun,nofun,nofun,nofun,nofun,nofun,trivial⟩
  obtain ⟨hiff,hgiven⟩ := lost_founded_iff 8 30000 as
  have hlost : results 1 (((create 8 30000).after (as.take 6)).act
      (.read 1 (.ok (some (.inState "E1" .ready))))).2 = [.error (.lost "E1" ⟨42⟩)] := by
    decide +kernel
  refine ⟨hthrough,hiff.mpr hthrough,by decide +kernel,?_⟩
  apply hgiven (as.take 6) _ [] rfl
  rw [hlost]
  exact List.mem_singleton_self _

/-- The server is being maintained when the row is asked for. The change is reported as lost and taken back,
and then the stream brings it with the transaction that the server named. -/
theorem lost_of_maintenance :
    let as := unheardOf (.error (.server 503 "maintenance"))
    let later := as ++ [.remote [⟨"E1",some (.inState "E1" .validated),[⟨42⟩]⟩]]
    results 1 ((create 8 30000).effects as) = [.error (.lost "E1" ⟨42⟩)] ∧
      ((create 8 30000).after as).reconciler.verdicts "E1" =
        [.rolledBack "E1" "mutation lost for key E1 (txid 42)"] ∧
      ((create 8 30000).after as).row? "E1" = some (.inState "E1" .ready) ∧
      ((create 8 30000).after later).row? "E1" = some (.inState "E1" .validated) ∧
      ¬ (create 8 30000).Along LossFounded as := by
  intro as later
  have hlost : results 1 (((create 8 30000).after (as.take 6)).act
      (.read 1 (.error (.server 503 "maintenance")))).2 = [.error (.lost "E1" ⟨42⟩)] := by
    decide +kernel
  refine ⟨by decide +kernel,by decide +kernel,by decide +kernel,by decide +kernel,?_⟩
  intro hfounded
  have hsplit : as = as.take 6 ++ [.read 1 (.error (.server 503 "maintenance"))] := rfl
  rw [hsplit,along_append] at hfounded
  have hlast := hfounded.2.1
  obtain ⟨_,_,_,hread,_⟩ := hlast 1 "E1" ⟨42⟩ (by rw [hlost]; exact List.mem_singleton_self _)
  cases hread

end Desk
end FieldReplica
