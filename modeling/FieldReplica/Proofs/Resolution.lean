import FieldReplica.Proofs.Departure

/-!
# Every mutation is resolved once

A mutation that is staged stays pending until one action ends its record for good, and is ruled on by that
action alone. All verdicts of a run are on the mutations that it stages.
-/
namespace FieldReplica

variable {R : Type} [Row R]

namespace Desk

variable {d : Desk R} {id : Nat} {key : String}

/-! ### Verdicts -/

private theorem verdicts_snoc (d : Desk R) (as : List (Action R)) (a : Action R) (key : String) :
    (d.after (as ++ [a])).reconciler.verdicts key =
      (d.after as).reconciler.verdicts key ++ (d.after as).ruling a key := by
  obtain ⟨new,hnew,_⟩ := rules_step (d.after as) a key
  rw [after_snoc,ruling_eq hnew,hnew]

private theorem verdictsOn_snoc (d : Desk R) (key : String) (id : Nat) (as : List (Action R)) (a : Action R) :
    d.verdictsOn key id (as ++ [a]) = d.verdictsOn key id as ++
      if ((d.after as).reconciler.find? key id).isSome then (d.after as).ruling a key else [] := by
  rw [verdictsOn_append,verdictsOn,verdictsOn,List.append_nil]

private theorem verdictsOn_snoc_of_none {as : List (Action R)}
    (h : (d.after as).reconciler.progress? key id = none) (a : Action R) :
    d.verdictsOn key id (as ++ [a]) = d.verdictsOn key id as := by
  have hfind : (d.after as).reconciler.find? key id = none := Option.map_eq_none_iff.mp h
  rw [verdictsOn_snoc,hfind]
  exact List.append_nil _

/-- An action rules on a key only for the mutation that has its record. -/
theorem flatMap_verdictsOn_snoc {as : List (Action R)} {l : List (Nat × Mutation R)}
    (hl : (d.after as).Enrolled l) (a : Action R) (key : String) :
    (l.filter (·.2.key = key)).flatMap (fun e => d.verdictsOn key e.1 (as ++ [a])) =
      (l.filter (·.2.key = key)).flatMap (fun e => d.verdictsOn key e.1 as) ++
        (d.after as).ruling a key := by
  cases hp : (d.after as).record? key with
  | none =>
    rw [ruling_of_none hp,List.append_nil]
    congr 1
    funext e
    exact verdictsOn_snoc_of_none (Reconciler.progress?_of_none hp e.1) a
  | some p =>
    obtain ⟨before,hbefore⟩ := List.getLast?_eq_some_iff.mp (hl.recorded key p hp)
    have hdistinct : ((l.filter (·.2.key = key)).map (·.1)).Nodup :=
      List.Sublist.nodup (List.Sublist.map _ List.filter_sublist) hl.distinct
    rw [hbefore,List.map_append] at hdistinct
    have hothers : ∀ e ∈ before, d.verdictsOn key e.1 (as ++ [a]) = d.verdictsOn key e.1 as := by
      intro e he
      have hne : e.1 ≠ p.id :=
        (List.nodup_append.mp hdistinct).2.2 e.1 (List.mem_map_of_mem he) p.id (List.mem_singleton_self _)
      refine verdictsOn_snoc_of_none ?_ a
      exact (Reconciler.progress?_of_some hp e.1).trans (if_neg (Ne.symm hne))
    have hsome : ((d.after as).reconciler.find? key p.id).isSome := by
      rw [Reconciler.find?_eq_some.mpr ⟨hp,rfl⟩]
      rfl
    rw [hbefore,List.flatMap_append,List.flatMap_append,List.flatMap_congr hothers,List.flatMap_singleton,
      List.flatMap_singleton,verdictsOn_snoc,if_pos hsome,List.append_assoc]

private theorem verdicts_run (capacity timeout : Nat) {as : List (Action R)} (ha : Open as) (key : String) :
    ((create capacity timeout).after as).reconciler.verdicts key =
      (((create capacity timeout).roster as).filter (·.2.key = key)).flatMap
        fun e => (create capacity timeout).verdictsOn key e.1 as := by
  induction as using List.reverseRecOn with
  | nil => rfl
  | append_singleton as a ih =>
    obtain ⟨ha,_⟩ := open_append.mp ha
    have hl := enrolled_run (R := R) capacity timeout as
    have hnew : ∀ e ∈ ((create capacity timeout).after as).entrant? a,
        (create capacity timeout).verdictsOn key e.1 (as ++ [a]) = [] := by
      intro e he
      have hfresh : e.1 = ((create capacity timeout).after as).reconciler.nextId := (entrant?_eq_some he).1
      have hd : ((create capacity timeout).after as).Coherent e.1 :=
        coherent_after (coherent_create capacity timeout) ha
      rw [verdictsOn_snoc_of_none ((hd.fresh (Nat.le_of_eq hfresh.symm)).2.2 key)]
      rcases verdictsOn_eq (coherent_create capacity timeout) ha with h | hretired
      · exact h
      · exact absurd hretired.known (Nat.not_lt.mpr (Nat.le_of_eq hfresh.symm))
    have hnone : ((((create capacity timeout).after as).entrant? a).toList.filter (·.2.key = key)).flatMap
        (fun e => (create capacity timeout).verdictsOn key e.1 (as ++ [a])) = [] := by
      rw [List.flatMap_eq_nil_iff]
      intro e he
      exact hnew e (Option.mem_toList.mp (List.mem_filter.mp he).1)
    rw [verdicts_snoc,ih ha,roster_snoc,List.filter_append,List.flatMap_append,hnone,
      List.append_nil,flatMap_verdictsOn_snoc hl]

/-! ### The action that ends a record -/

/-- A mutation is pending from the moment it is staged until an action ends its record, and never again. -/
structure LeavesAt (d : Desk R) (u : List (Action R)) (a : Action R) (v : List (Action R))
    (e : Nat × Mutation R) : Prop where
  staged : e ∈ d.roster u
  pending : ∀ x, x <+: u → e ∈ d.roster x → (d.after x).reconciler.progress? e.2.key e.1 ≠ none
  gone : ∀ x, x <+: v → ∀ key, (d.after (u ++ a::x)).reconciler.progress? key e.1 = none

private theorem leavesAt_of_gone (capacity timeout : Nat) {as : List (Action R)} {e : Nat × Mutation R}
    (he : e ∈ (create capacity timeout).roster as)
    (hn : ((create capacity timeout).after as).reconciler.progress? e.2.key e.1 = none) :
    ∃ u a v, as = u ++ a::v ∧ (create capacity timeout).LeavesAt u a v e ∧
      ((create capacity timeout).after u).reconciler.progress? e.2.key e.1 ≠ none ∧
      (((create capacity timeout).after u).step a).reconciler.progress? e.2.key e.1 = none := by
  obtain ⟨s,b,r,rfl,hb⟩ := mem_gather he
  obtain ⟨_,_,_,_,base,hrecord⟩ := entrant?_eq_some (Option.mem_toList.mp hb)
  have hstart : (((create capacity timeout).after s).step b).reconciler.progress? e.2.key e.1 ≠ none :=
    Reconciler.progress?_ne_none hrecord rfl
  rw [after_append,after_cons] at hn
  obtain ⟨u,a,v,rfl,hbefore,hafter⟩ := (exists_turn
    (fun d : Desk R => d.reconciler.progress? e.2.key e.1 = none) hn).resolve_left hstart
  have hsplit : s ++ b::(u ++ a::v) = (s ++ b::u) ++ a::v := by simp
  have hp : ((create capacity timeout).after (s ++ b::u)).reconciler.progress? e.2.key e.1 ≠ none := by
    rw [after_append,after_cons]
    exact hbefore
  have hn : (((create capacity timeout).after (s ++ b::u)).step a).reconciler.progress? e.2.key e.1 =
      none := by
    rw [after_append,after_cons]
    exact hafter
  have hstaged : e ∈ (create capacity timeout).roster (s ++ b::u) := by
    rw [roster_append]
    exact List.mem_append_right _ (List.mem_append_left _ hb)
  refine ⟨s ++ b::u,a,v,hsplit,⟨hstaged,fun x hx hex => pending_of_prefix capacity timeout hp hx hex,?_⟩,
    hp,hn⟩
  rintro x - k
  rw [after_append,after_cons]
  refine gone_after (enrolled_step (enrolled_run capacity timeout (s ++ b::u)) a) ?_ hn x k
  exact List.mem_append_left _ hstaged

/-! ### What becomes of a mutation -/

/-- What becomes of a mutation whose record goes with an action, between what is before it and what comes
after. -/
def Fate (d : Desk R) (u : List (Action R)) (a : Action R) (v : List (Action R)) (e : Nat × Mutation R) :
    Departure → Prop
  -- The transaction is the one that the server named, and the submission returns it.
  | .confirmed t => d.Accepted (u ++ [a]) e.2.key e.1 t ∧
      d.verdictsOn e.2.key e.1 (u ++ a::v) = [.confirmed e.2.key t] ∧
      ((d.after u).find? e.1 ≠ none → .abort e.1 ∉ v →
        d.Returns (u ++ a::v) e.1 (.ok (.confirmed e.2.key t)))
  -- The submission returns the error that is reported.
  | .rolledBack x => d.verdictsOn e.2.key e.1 (u ++ a::v) = [.rolledBack e.2.key x.message] ∧
      results e.1 (d.effects (u ++ a::v)) = [.error x]
  -- An insertion that was not submitted met the removal of its key.
  | .cancelled => e.2.kind = .insert ∧ (∃ fresh, a = .stage fresh (.delete e.2.key)) ∧
      (d.after u).reconciler.progress? e.2.key e.1 = some .staged ∧
      d.verdictsOn e.2.key e.1 (u ++ a::v) = [] ∧
      (∀ e' ∈ d.sendings (u ++ a::v), e'.1 ≠ e.1) ∧
      ∀ x y, v = x ++ .submit e.1::y → (∃ s ∈ (d.after (u ++ a::x)).handles, s.id = e.1) →
        results e.1 ((d.after (u ++ a::x)).act (.submit e.1)).2 = [.ok (.cancelled e.2.key)]

theorem Fate.verdictsOn {u v : List (Action R)} {a : Action R} {e : Nat × Mutation R} {w : Departure}
    (h : d.Fate u a v e w) : d.verdictsOn e.2.key e.1 (u ++ a::v) = w.verdicts e.2.key := by
  cases w with
  | confirmed t => exact h.2.1
  | rolledBack x => exact h.1
  | cancelled => exact h.2.2.2.1

/-- A mutation has no two fates. -/
theorem Fate.unique {u v : List (Action R)} {a : Action R} {e : Nat × Mutation R} {w w' : Departure}
    (h : d.Fate u a v e w) (h' : d.Fate u a v e w') : w = w' := by
  have hverdicts := h.verdictsOn.symm.trans h'.verdictsOn
  cases w with
  | confirmed t =>
    cases w' with
    | confirmed t' =>
      simp only [Departure.verdicts,List.cons.injEq,and_true] at hverdicts
      rw [(Event.confirmed.inj hverdicts).2]
    | rolledBack x => cases hverdicts
    | cancelled => cases hverdicts
  | rolledBack x =>
    cases w' with
    | confirmed t => cases hverdicts
    | rolledBack x' =>
      have hresults := h.2.symm.trans h'.2
      simp only [List.cons.injEq,and_true] at hresults
      rw [Except.error.inj hresults]
    | cancelled => cases hverdicts
  | cancelled =>
    cases w' with
    | confirmed t => cases hverdicts
    | rolledBack x => cases hverdicts
    | cancelled => rfl

/-- Only an insertion that waits to be submitted is cancelled, by the removal of its key. -/
theorem cancelled_of_ends {a : Action R} (h : d.Ends key id a .cancelled) :
    (∃ fresh, a = .stage fresh (.delete key)) ∧ ∃ p, d.record? key = some p ∧ p.id = id ∧
      p.mutation.kind = .insert ∧ p.progress = .staged := by
  cases h with
  | @withdrawn fresh m d' p hs hp hid =>
    obtain ⟨r,hr,_⟩ := stage_eq_ok hs
    obtain ⟨_,⟨q,hq,hcancel,hkey,_⟩ | ⟨_,_,_,hx,_⟩⟩ := Reconciler.stage_eq_ok rfl hr
    · cases hkey
      obtain rfl := Option.some.inj (hp.symm.trans hq)
      simp only [Reconciler.cancels,Pending.isSubmitted,Bool.and_eq_true,Bool.not_eq_true',
        decide_eq_false_iff_not,decide_eq_true_eq,ne_eq,not_not] at hcancel
      obtain ⟨⟨hdelete,hinsert⟩,hstaged⟩ := hcancel
      refine ⟨⟨fresh,?_⟩,p,hp,hid,hinsert,hstaged⟩
      cases m with
      | insert row => cases hdelete
      | update k changes => cases hdelete
      | delete k => rfl
    · cases hx

private theorem fate_of_ends (capacity timeout : Nat) {u v : List (Action R)} {a : Action R} {e : Nat × Mutation R}
    (ha : Open (u ++ a::v)) (hleaves : (create capacity timeout).LeavesAt u a v e) {w : Departure}
    (h : ((create capacity timeout).after u).Ends e.2.key e.1 a w) :
    (create capacity timeout).Fate u a v e w := by
  have hd : (create capacity timeout : Desk R).Coherent e.1 := coherent_create capacity timeout
  obtain ⟨hu,hav⟩ := open_append.mp ha
  obtain ⟨haopen,hv⟩ := open_cons.mp hav
  have hdu : ((create capacity timeout).after u).Coherent e.1 := coherent_after hd hu
  have hp := hleaves.pending u (List.prefix_refl u) hleaves.staged
  have hretired : (((create capacity timeout).after u).step a).Retired e.2.key e.1 := by
    have hgone := hleaves.gone [] List.nil_prefix e.2.key
    rw [after_snoc] at hgone
    exact ⟨Nat.lt_of_lt_of_le ((enrolled_run capacity timeout u).known e hleaves.staged)
      (nextId_le_step _ a),hgone⟩
  have hverdicts := verdictsOn_split hd hu hp hretired v
  rw [(ruling_of_ends h).2] at hverdicts
  cases w with
  | confirmed t =>
    refine ⟨accepted_of_ends capacity timeout h,hverdicts,fun hflying habort => ?_⟩
    have hundisturbed : Undisturbed e.1 v := fun b hb => ⟨hv b hb,fun hab => habort (hab ▸ hb)⟩
    exact (reached_of_confirming hd hu haopen hundisturbed (confirming_of_ends hdu h hflying)).returns hd ha
  | rolledBack x =>
    refine ⟨hverdicts,?_⟩
    obtain ⟨hflying,hresult⟩ := result_of_rolledBack h
    have hbefore : results e.1 ((create capacity timeout).effects u) = [] := by
      rcases results_effects hd hu with hnone | hspent
      · exact hnone
      · exact absurd hspent.landed hflying
    have hafter : results e.1 ((((create capacity timeout).after u).step a).effects v) = [] := by
      rcases (coherent_step hdu haopen).2 with hnone | hspent
      · cases hresult.symm.trans hnone
      · exact (spent_after hspent hv).2
    rw [effects_append,results_append,hbefore,effects,results_append,hresult,hafter]
    rfl
  | cancelled =>
    have hl := enrolled_run (R := R) capacity timeout u
    obtain ⟨⟨fresh,rfl⟩,p,hrecord,hid,hinsert,hstaged⟩ := cancelled_of_ends h
    have hmutation : p.mutation = e.2 := by
      have hmem := (hl.mem_of_record hrecord).1
      rw [hid] at hmem
      exact hl.unique hmem hleaves.staged
    refine ⟨hmutation ▸ hinsert,⟨fresh,rfl⟩,?_,hverdicts,?_,?_⟩
    · rw [Reconciler.progress?_of_some hrecord,if_pos hid,hstaged]
    · rw [← hid]
      cases h with
      | withdrawn hs _ _ => exact withdrawn_run capacity timeout hs hrecord
    · rintro x y rfl hheld
      have hx : Open (u ++ .stage fresh (.delete e.2.key)::x) := by
        refine open_append.mpr ⟨hu,open_cons.mpr ⟨haopen,?_⟩⟩
        exact (open_append.mp hv).1
      refine result_of_submit_gone (closed_after _ hx) (hleaves.gone x (List.prefix_append x _)) hheld ?_
      intro s hs hsid
      obtain ⟨m,hm,hk⟩ := (enrolled_run capacity timeout _).held s hs
      have hmem : e ∈ (create capacity timeout).roster (u ++ .stage fresh (.delete e.2.key)::x) := by
        rw [roster_append]
        exact List.mem_append_left _ hleaves.staged
      rw [hsid] at hm
      rw [← hk,(enrolled_run capacity timeout _).unique hm hmem]

/-- Every mutation of a run that leaves the reconciler open has a number of its own. It is still pending,
with no verdict, or some action has ended its record for good, and it has exactly one fate. There are no
other verdicts than these. -/
theorem resolved_once (capacity timeout : Nat) {as : List (Action R)} (ha : Open as) :
    (((create capacity timeout).roster as).map (·.1)).Nodup ∧
    (∀ key, ((create capacity timeout).after as).reconciler.verdicts key =
      (((create capacity timeout).roster as).filter (·.2.key = key)).flatMap
        fun e => (create capacity timeout).verdictsOn key e.1 as) ∧
    ∀ e ∈ (create capacity timeout).roster as,
      ((∀ x, x <+: as → e ∈ (create capacity timeout).roster x →
          ((create capacity timeout).after x).reconciler.progress? e.2.key e.1 ≠ none) ∧
        (create capacity timeout).verdictsOn e.2.key e.1 as = []) ∨
      ∃ u a v, as = u ++ a::v ∧ (create capacity timeout).LeavesAt u a v e ∧
        ∃! w, (create capacity timeout).Fate u a v e w := by
  refine ⟨(enrolled_run capacity timeout as).distinct,verdicts_run capacity timeout ha,?_⟩
  intro e he
  have hd : (create capacity timeout : Desk R).Coherent e.1 := coherent_create capacity timeout
  cases hg : ((create capacity timeout).after as).reconciler.progress? e.2.key e.1 with
  | some g =>
    left
    have hp := Option.ne_none_iff_exists'.mpr ⟨g,hg⟩
    refine ⟨fun x hx hex => pending_of_prefix capacity timeout hp hx hex,?_⟩
    rcases verdictsOn_eq hd ha with hnone | hretired
    · exact hnone
    · exact absurd hretired.gone hp
  | none =>
    right
    obtain ⟨u,a,v,rfl,hleaves,hp,hn⟩ := leavesAt_of_gone capacity timeout he hg
    obtain ⟨hu,hav⟩ := open_append.mp ha
    obtain ⟨w,hends⟩ := ends_of_gone (coherent_after hd hu) (open_cons.mp hav).1 hp hn
    have hfate := fate_of_ends capacity timeout ha hleaves hends
    exact ⟨u,a,v,rfl,hleaves,w,hfate,fun w' hw' => hw'.unique hfate⟩

/-- A new feature is taken back. Of three changes one is confirmed, one refused, and one stays where it is. -/
def severalFates : List (Action Entity) := [
  .stage "" (.insert (.inState "E9" .ready)),
  .stage "" (.delete "E9"),
  .remote [⟨"E1",some (.inState "E1" .ready),[]⟩,⟨"E2",some (.inState "E2" .ready),[]⟩,
    ⟨"E3",some (.inState "E3" .ready),[]⟩],
  .stage "" (Entity.setStatus "E1" .validated),
  .stage "" (Entity.setStatus "E2" .validated),
  .stage "" (Entity.setStatus "E3" .validated),
  .submit 2,
  .submit 3,
  .reply 2 (.ok ⟨42⟩),
  .reply 3 (.error (.rejected 409 "stale")),
  .remote [⟨"E1",some (.inState "E1" .validated),[⟨42⟩]⟩],
  .submit 1]

theorem resolved_once_severalFates : Open severalFates ∧
    ((create 8 30000).roster severalFates).map (·.1) = [1,2,3,4] ∧
    ((create 8 30000).after severalFates).reconciler.verdicts "E2" =
      [.rolledBack "E2" (MutationError.rejected 409 "stale").message] ∧
    ∃ u a v, severalFates = u ++ a::v ∧
      (create 8 30000).LeavesAt u a v (2,Entity.setStatus "E1" .validated) ∧
      ∃! w, (create 8 30000).Fate u a v (2,Entity.setStatus "E1" .validated) w := by
  have hopen : Open severalFates := by simp [Open,severalFates]
  obtain ⟨_,hverdicts,hfates⟩ := resolved_once 8 30000 hopen
  refine ⟨hopen,by decide +kernel,?_,?_⟩
  · rw [hverdicts]
    decide +kernel
  · rcases hfates (2,Entity.setStatus "E1" .validated) (by decide +kernel) with ⟨hpending,_⟩ | hleft
    · exact absurd (by decide +kernel) (hpending severalFates (List.prefix_refl _) (by decide +kernel))
    · exact hleft

end Desk
end FieldReplica
