import FieldReplica.Proofs.Slips

/-!
# What the stream tells a board

A batch and a full image take slips off a board only by confirming them, each on its own line, on which nothing was
said before. With that, a board whose slips agree is worked on as the reconciler that it is a view of.
-/
namespace FieldReplica
namespace Board

variable {R : Type} {b b' : Board R} {key : String} {s : Slip R}

/-- The lines after some confirmations were told, each on a line that was silent. -/
def Tells : (Nat → Line) → List Confirmation → (Nat → Line) → Prop
  | ls,[],ls' => ls' = ls
  | ls,c::cs,ls' => ls c.id = .silent ∧ Tells (Function.update ls c.id (.said c.txid)) cs ls'

section
variable {ls ls' ls'' : Nat → Line} {cs ds : List Confirmation}

theorem Tells.append (h : Tells ls cs ls') (h' : Tells ls' ds ls'') : Tells ls (cs ++ ds) ls'' := by
  induction cs generalizing ls with
  | nil =>
    obtain rfl : ls' = ls := h
    exact h'
  | cons c cs ih => exact ⟨h.1,ih h.2⟩

/-- A line on which nothing can be said any more stays as it is. -/
theorem Tells.of_not_silent (h : Tells ls cs ls') {i : Nat} (hi : ls i ≠ .silent) : ls' i = ls i := by
  induction cs generalizing ls with
  | nil => exact congrFun h i
  | cons c cs ih =>
    have hne : i ≠ c.id := by
      rintro rfl
      exact hi h.1
    have hstep := Function.update_of_ne hne (Line.said c.txid) ls
    exact (ih h.2 (by rw [hstep]; exact hi)).trans hstep

theorem Tells.said (h : Tells ls cs ls') {c : Confirmation} (hc : c ∈ cs) : ls' c.id = .said c.txid := by
  induction cs generalizing ls with
  | nil => cases hc
  | cons d cs ih =>
    rcases List.mem_cons.mp hc with rfl | hc
    · have hself := Function.update_self c.id (Line.said c.txid) ls
      exact (h.2.of_not_silent (by rw [hself]; nofun)).trans hself
    · exact ih h.2 hc

/-- No line is cut where something is told. -/
theorem Tells.cut (h : Tells ls cs ls') {i : Nat} (hi : ls' i = .cut) : ls i = .cut := by
  induction cs generalizing ls with
  | nil => exact (congrFun h i).symm.trans hi
  | cons c cs ih =>
    have hstep := ih h.2
    rw [Function.update_apply] at hstep
    split at hstep
    · cases hstep
    · exact hstep

end

section
variable [Row R]

/-- What the stream's word makes of a board: the slips that are confirmed come off and are told of, and the
others stay with their ids, their transactions and whether they were sent. -/
structure Leads (b b' : Board R) (cs : List Confirmation) : Prop where
  sound : b'.Sound
  next : b'.nextId = b.nextId
  closed : b'.closed = b.closed
  tells : Tells b.lines cs b'.lines
  stays : ∀ k q, b'.slips.find? k = some q →
    ∃ p, b.slips.find? k = some p ∧ q.id = p.id ∧ q.submitted = p.submitted
  gone : ∀ k p, b.slips.find? k = some p →
    (∃ q, b'.slips.find? k = some q ∧ q.id = p.id ∧ q.txid = p.txid) ∨
      ∃ t, p.txid = some t ∧ ⟨p.id,k,t⟩ ∈ cs

private theorem Sound.leads_refl (h : b.Sound) : Leads b b [] :=
  ⟨h,rfl,rfl,rfl,fun _ q hq => ⟨q,hq,rfl,rfl⟩,fun _ p hp => .inl ⟨p,hp,rfl,rfl⟩⟩

theorem Leads.trans {b'' : Board R} {cs ds : List Confirmation} (h : Leads b b' cs) (h' : Leads b' b'' ds) :
    Leads b b'' (cs ++ ds) where
  sound := h'.sound
  next := h'.next.trans h.next
  closed := h'.closed.trans h.closed
  tells := h.tells.append h'.tells
  stays := by
    intro k r hr
    obtain ⟨q,hq,hqi,hqs⟩ := h'.stays k r hr
    obtain ⟨p,hp,hpi,hps⟩ := h.stays k q hq
    exact ⟨p,hp,hqi.trans hpi,hqs.trans hps⟩
  gone := by
    intro k p hp
    rcases h.gone k p hp with ⟨q,hq,hqi,hqt⟩ | ⟨t,ht,hc⟩
    · rcases h'.gone k q hq with ⟨r,hr,hri,hrt⟩ | ⟨t,ht,hc⟩
      · exact .inl ⟨r,hr,hri.trans hqi,hrt.trans hqt⟩
      · exact .inr ⟨t,hqt.symm.trans ht,List.mem_append_right _ (hqi ▸ hc)⟩
    · exact .inr ⟨t,ht,List.mem_append_left _ hc⟩

theorem Leads.congr {b'' : Board R} {cs : List Confirmation} (h : Leads b b' cs) (hs : b''.slips = b'.slips)
    (hl : b''.lines = b'.lines) (hn : b''.nextId = b'.nextId) (hc : b''.closed = b'.closed) :
    Leads b b'' cs := by
  refine ⟨h.sound.congr hs hl hn hc,hn.trans h.next,hc.trans h.closed,hl ▸ h.tells,?_,?_⟩
  · rw [hs]
    exact h.stays
  · rw [hs]
    exact h.gone

private theorem Sound.leads_rebase (h : b.Sound) (hs : b.slips.find? key = some s) (v : Option R) :
    Leads b (b.put key { s with base := v }) [] := by
  have hl := h.linked key s hs
  refine ⟨h.put hs rfl rfl ⟨hl.state,hl.awaiting,hl.sent,hl.sender⟩,rfl,rfl,rfl,fun k q hq => ?_,
    fun k p hp => .inl ?_⟩
  · rw [Board.put,Table.find?_insert_of] at hq
    split at hq
    · next hk =>
      subst hk
      obtain rfl := Option.some.inj hq
      exact ⟨s,hs,rfl,rfl⟩
    · exact ⟨q,hq,rfl,rfl⟩
  · rw [Board.put,Table.find?_insert_of]
    split
    · next hk =>
      subst hk
      obtain rfl := Option.some.inj (hs.symm.trans hp)
      exact ⟨_,rfl,rfl,rfl⟩
    · exact ⟨p,hp,rfl,rfl⟩

private theorem Sound.leads_confirm (h : b.Sound) (hs : b.slips.find? key = some s) {t : Txid}
    (ht : s.txid = some t) : Leads b ((b.remove key).setLine s.id (.said t)) [⟨s.id,key,t⟩] := by
  refine ⟨h.off hs nofun,rfl,rfl,⟨h.unused key s hs,rfl⟩,fun k q hq => ?_,fun k p hp => ?_⟩
  · have hq : (b.slips.erase key).find? k = some q := hq
    rw [Table.find?_erase_of] at hq
    split at hq
    · cases hq
    · exact ⟨q,hq,rfl,rfl⟩
  · by_cases hk : k = key
    · subst hk
      obtain rfl := Option.some.inj (hs.symm.trans hp)
      exact .inr ⟨t,ht,List.mem_singleton_self _⟩
    · exact .inl ⟨p,(Table.find?_erase_ne _ hk).trans hp,rfl,rfl⟩

/-! ### What a remote change and an image come to -/

omit [Row R] in
theorem receive_of_none {c : RemoteChange R} (hs : b.slips.find? c.key = none) :
    b.receive c = ⟨b,[.restore c.key c.row],[]⟩ := by
  rw [receive,hs]

theorem Sound.receive_of_matched (h : b.Sound) {c : RemoteChange R} (hs : b.slips.find? c.key = some s)
    {t : Txid} (ht : s.txid.filter (· ∈ c.txids) = some t) : b.receive c =
      ⟨(b.remove c.key).setLine s.id (.said t),[.restore c.key c.row],[⟨s.id,c.key,t⟩]⟩ := by
  simp only [receive,hs,ht,confirm_eq (s := { s with base := c.row }) (h.linked _ s hs).sender]

omit [Row R] in
theorem receive_of_unmatched {c : RemoteChange R} (hs : b.slips.find? c.key = some s)
    (ht : s.txid.filter (· ∈ c.txids) = none) : b.receive c =
      ⟨{ b.put c.key { s with base := c.row } with
        observed := b.observed.recordAll c.key c.txids },[],[]⟩ := by
  simp only [receive,hs,ht]

theorem Sound.leads_receive (h : b.Sound) (c : RemoteChange R) :
    Leads b (b.receive c).board (b.receive c).confirmed := by
  cases hs : b.slips.find? c.key with
  | none =>
    rw [receive_of_none hs]
    exact h.leads_refl
  | some s =>
    cases ht : s.txid.filter (· ∈ c.txids) with
    | some t =>
      rw [h.receive_of_matched hs ht]
      exact h.leads_confirm hs (Option.filter_eq_some_iff.mp ht).1
    | none =>
      rw [receive_of_unmatched hs ht]
      exact (h.leads_rebase hs c.row).congr rfl rfl rfl rfl

/-- The transaction of a slip, if it has one and an image shows its mutation. -/
def reflected? (image : Table String R) (key : String) (s : Slip R) : Option Txid :=
  s.txid.filter fun _ => s.mutation.isReflectedBy (image.find? key)

theorem reflect_of_none {image : Table String R} (hs : b.slips.find? key = none) :
    reflect image b key = ⟨b,[],[]⟩ := by
  rw [reflect,hs]

/-- A slip that an image shows has a transaction, so that it does not go without a word. -/
theorem Sound.reflect_of_some (h : b.Sound) (image : Table String R) (hs : b.slips.find? key = some s) :
    reflect image b key = match reflected? image key s with
      | some t =>
        ⟨(b.remove key).setLine s.id (.said t),[.restore key (image.find? key)],[⟨s.id,key,t⟩]⟩
      | none => ⟨b.put key { s with base := image.find? key },[],[]⟩ := by
  have hl := h.linked key s hs
  simp only [reflect,hs,reflected?]
  cases hx : s.txid with
  | none =>
    have hstate : s.state ≠ .awaitingConfirmation := fun he => by
      have := hl.awaiting.mp he
      rw [hx] at this
      cases this
    simp [hstate]
  | some t =>
    have hstate : s.state = .awaitingConfirmation := hl.awaiting.mpr (by rw [hx]; rfl)
    cases s.mutation.isReflectedBy (image.find? key) <;>
      simp [hstate,confirm_eq,hl.sender,Option.filter]

theorem Sound.leads_reflect (h : b.Sound) (image : Table String R) (key : String) :
    Leads b (reflect image b key).board (reflect image b key).confirmed := by
  cases hs : b.slips.find? key with
  | none =>
    rw [reflect_of_none hs]
    exact h.leads_refl
  | some s =>
    rw [h.reflect_of_some image hs]
    cases ht : reflected? image key s with
    | some t => exact h.leads_confirm hs (Option.filter_eq_some_iff.mp ht).1
    | none => exact h.leads_rebase hs _

/-- What leads on step by step leads on over a list. -/
theorem Sound.leads_fold {α : Type} {f : Board R → α → Takings R}
    (hf : ∀ b : Board R, b.Sound → ∀ a, Leads b (f b a).board (f b a).confirmed) (h : b.Sound)
    (as : List α) : Leads b (b.fold f as).board (b.fold f as).confirmed := by
  induction as generalizing b with
  | nil => exact h.leads_refl
  | cons a as ih => exact (hf b h a).trans (ih (hf b h a).sound)

theorem Sound.leads_applyRemote (h : b.Sound) (cs : List (RemoteChange R)) :
    Leads b (b.applyRemote cs).1 (b.applyRemote cs).2 :=
  (h.leads_fold (fun _ h => h.leads_receive) cs).congr rfl rfl rfl rfl

theorem Sound.leads_applySnapshot (h : b.Sound) (rows : List R) (resync : Bool) :
    Leads b (b.applySnapshot rows resync).1 (b.applySnapshot rows resync).2 := by
  have hfold := h.leads_fold (fun _ h => h.leads_reflect (.ofList (rows.map fun row => (Row.key row,row))))
    b.slips.keys
  cases resync <;> exact hfold.congr rfl rfl rfl rfl

end
end Board
end FieldReplica
