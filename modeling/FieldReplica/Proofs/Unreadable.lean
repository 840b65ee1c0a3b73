import FieldReplica.Proofs.Run
import FieldReplica.Proofs.Tracking

/-!
# Records that cannot be read

A record that is no row of its own key is dropped, and nothing else comes of it: a batch leads where it would have
led without such records, and delivers the same. They are only counted, up to an order to start over, and not in a
batch that is refused or was delivered before.
-/
namespace FieldReplica

/-- A message inserts or updates a row, and what it carries cannot be read as a row of its key. -/
def ShapeMessage.Unreadable (R : Type) [Row R] : ShapeMessage → Prop
  | .change m => m.headers.operation ≠ .delete ∧
      ∀ row : R, Decoder.ofJson Row.decode m.value = .ok row → Row.key row ≠ m.key
  | .control _ => False

/-- The messages of a batch, each with whether it is taken out. -/
abbrev Cut : Type := List (ShapeMessage × Bool)

namespace Cut

def whole (cut : Cut) : List ShapeMessage := cut.map (·.1)

def kept (cut : Cut) : List ShapeMessage := (cut.filter fun x => !x.2).map (·.1)

/-- How many messages are taken out before the first order to start over. -/
def removed (cut : Cut) : Nat := (cut.takeWhile fun x => x.1 ≠ .control .mustRefetch).countP (·.2)

/-- Only messages that cannot be read are taken out. -/
def Harmless (R : Type) [Row R] (cut : Cut) : Prop := ∀ x ∈ cut, x.2 = true → x.1.Unreadable R

private theorem kept_cons (x : ShapeMessage × Bool) (cut : Cut) :
    kept (x::cut) = if x.2 then kept cut else x.1::kept cut := by
  obtain ⟨m,_ | _⟩ := x <;> rfl

private theorem removed_cons (x : ShapeMessage × Bool) (cut : Cut) :
    removed (x::cut) = if x.1 = .control .mustRefetch then 0 else removed cut + if x.2 then 1 else 0 := by
  rw [removed,List.takeWhile_cons]
  split
  · next h =>
    rw [if_neg (by simpa using h),List.countP_cons]
    rfl
  · next h =>
    rw [if_pos (by simpa using h)]
    rfl

end Cut

namespace Subscription

variable {R : Type} [Row R]

private theorem decodeChange_eq_none_iff {m : ChangeMessage} :
    (decodeChange m : Option (RemoteChange R)) = none ↔ (ShapeMessage.change m).Unreadable R := by
  rw [decodeChange,ShapeMessage.Unreadable]
  cases m.headers.operation with
  | delete => simp
  | insert | update => cases (Decoder.ofJson Row.decode m.value : Except DecodeError R) <;> simp

/-- What a batch says is what it would say without the records that cannot be read. -/
theorem readMessages_kept (replay : Bool) {cut : Cut} (h : cut.Harmless R) :
    (readMessages replay cut.whole : Reading R) = { readMessages replay cut.kept with
      dropped := (readMessages replay cut.kept : Reading R).dropped + if replay then 0 else cut.removed } := by
  induction cut with
  | nil => cases replay <;> rfl
  | cons x cut ih =>
    obtain ⟨m,out⟩ := x
    have ih := ih fun y hy => h y (List.mem_cons_of_mem _ hy)
    rw [Cut.kept_cons,Cut.removed_cons]
    cases out with
    | true =>
      have hm := h _ List.mem_cons_self rfl
      cases m with
      | control c => exact hm.elim
      | change m =>
        -- It comes to nothing but one in the count, and in a replay not even to that.
        change readMessages replay (.change m::Cut.whole cut) = _
        rw [readMessages,ih,decodeChange_eq_none_iff.mpr hm]
        cases replay <;> simp [Nat.add_assoc]
    | false =>
      change readMessages replay (m::Cut.whole cut) = _
      cases m with
      | control c =>
        cases c with
        | mustRefetch => cases replay <;> rfl
        | upToDate => simp [readMessages,ih]
      | change m =>
        cases replay with
        | true => simp [readMessages,ih]
        | false => cases hm : (decodeChange m : Option (RemoteChange R)) <;> simp [readMessages,ih,hm]; omega

/-- Whether a batch is refused for its handle. -/
def refuses (s : Subscription R) (handle : ShapeHandle) : Bool := s.image.isNone && s.handle.any (· ≠ handle)

/-- The count decides nothing: it is added to, and whatever has been counted before or is counted besides is in
the count that comes out. -/
theorem applyBatch_counts (s : Subscription R) (n : Nat) {handle : ShapeHandle} {offset : LogOffset}
    {ms ms' : List ShapeMessage} {more : Nat} (h : (readMessages (s.isReplay offset) ms : Reading R) =
      { readMessages (s.isReplay offset) ms' with
        dropped := (readMessages (s.isReplay offset) ms' : Reading R).dropped + more }) :
    ({ s with dropped := s.dropped + n } : Subscription R).applyBatch ⟨handle,offset,ms⟩ =
      ({ (s.applyBatch ⟨handle,offset,ms'⟩).1 with
        dropped := (s.applyBatch ⟨handle,offset,ms'⟩).1.dropped + (n + if s.refuses handle then 0 else more) },
      (s.applyBatch ⟨handle,offset,ms'⟩).2) := by
  have hreplay : ({ s with dropped := s.dropped + n } : Subscription R).isReplay offset = s.isReplay offset := rfl
  rw [applyBatch,applyBatch,refuses,hreplay,h]
  generalize (readMessages (s.isReplay offset) ms' : Reading R) = reading
  obtain ⟨changes,upToDate,mustRefetch,dropped⟩ := reading
  have hcount : s.dropped + n + (dropped + more) = s.dropped + dropped + (n + more) := by omega
  dsimp only
  cases s.image.isNone && s.handle.any (· ≠ handle) with
  | true => rfl
  | false =>
    rw [hcount]
    cases mustRefetch with
    | true => rfl
    | false =>
      cases s.image with
      | none => by_cases hcs : changes = [] <;> cases upToDate <;> simp [hcs]
      | some image => cases upToDate <;> rfl

/-! ### Runs -/

/-- Two subscriptions differ in the count of dropped records at most. -/
def Alike (s t : Subscription R) : Prop := ∃ n, s = { t with dropped := n }

/-- Two outcomes of a request are the same, or the same but for records that cannot be read. -/
inductive Spoils (R : Type) [Row R] : Except ShapeError ShapeResponse → Except ShapeError ShapeResponse → Prop where
  | same (x : Except ShapeError ShapeResponse) : Spoils R x x
  | batch (handle : ShapeHandle) (offset : LogOffset) {cut : Cut} (h : cut.Harmless R) :
    Spoils R (.ok (.batch ⟨handle,offset,cut.whole⟩)) (.ok (.batch ⟨handle,offset,cut.kept⟩))

variable {s t : Subscription R} {x y : Except ShapeError ShapeResponse}
  {xs ys : List (Except ShapeError ShapeResponse)}

omit [Row R] in
theorem Alike.trans {u : Subscription R} (h : s.Alike t) (h' : t.Alike u) : s.Alike u := by
  obtain ⟨n,rfl⟩ := h
  obtain ⟨m,rfl⟩ := h'
  exact ⟨n,rfl⟩

theorem Alike.applyBatch (h : s.Alike t) (b : ShapeBatch) :
    (s.applyBatch b).1.Alike (t.applyBatch b).1 ∧ (s.applyBatch b).2 = (t.applyBatch b).2 := by
  have hcounts : ∀ n, ∃ k, ({ t with dropped := n } : Subscription R).applyBatch b =
      ({ (({ t with dropped := 0 } : Subscription R).applyBatch b).1 with dropped := k },
        (({ t with dropped := 0 } : Subscription R).applyBatch b).2) := by
    intro n
    have hn := @applyBatch_counts R _ { t with dropped := 0 } n b.handle b.offset b.messages b.messages 0 rfl
    rw [Nat.zero_add] at hn
    exact ⟨_,hn⟩
  obtain ⟨n,rfl⟩ := h
  obtain ⟨k,hk⟩ := hcounts n
  obtain ⟨l,hl⟩ := hcounts t.dropped
  have hl : t.applyBatch b = _ := hl
  rw [hk,hl]
  exact ⟨⟨k,rfl⟩,rfl⟩

/-- An outcome that is spoilt leads to the same. -/
theorem Spoils.receive (h : s.Alike t) (hx : Spoils R x y) :
    (s.receive x).1.Alike (t.receive y).1 ∧ (s.receive x).2 = (t.receive y).2 := by
  have hanswer : ({ s with failures := 0 } : Subscription R).Alike { t with failures := 0 } := by
    obtain ⟨n,rfl⟩ := h
    exact ⟨n,rfl⟩
  cases hx with
  | same =>
    rcases x with e | b | _
    · obtain ⟨n,rfl⟩ := h
      rw [Subscription.receive,Subscription.receive]
      split
      · exact ⟨⟨n,rfl⟩,rfl⟩
      · dsimp only
        split <;> exact ⟨⟨n,rfl⟩,rfl⟩
    · obtain ⟨halike,hevent⟩ := hanswer.applyBatch b
      rw [receive_batch,receive_batch,hevent]
      exact ⟨halike,rfl⟩
    · obtain ⟨n,rfl⟩ := h
      exact ⟨⟨n,rfl⟩,rfl⟩
  | @batch handle offset cut hcut =>
    let s' : Subscription R := { s with failures := 0 }
    have hcounts : s'.applyBatch ⟨handle,offset,cut.whole⟩ = _ :=
      applyBatch_counts s' 0 (readMessages_kept (s'.isReplay offset) hcut)
    obtain ⟨halike,hevent⟩ := hanswer.applyBatch ⟨handle,offset,cut.kept⟩
    rw [receive_batch,receive_batch,hcounts,hevent]
    exact ⟨.trans ⟨_,rfl⟩ halike,rfl⟩

omit [Row R] in
theorem Alike.fail (h : s.Alike t) (e : ShapeError) : (s.fail e).1.Alike (t.fail e).1 := by
  obtain ⟨n,rfl⟩ := h
  exact ⟨n,rfl⟩

theorem Alike.begin (h : s.Alike t) : s.begin.1.Alike t.begin.1 ∧ s.begin.2 = t.begin.2 := by
  obtain ⟨n,rfl⟩ := h
  rw [Subscription.begin,Subscription.begin]
  dsimp only
  split <;> exact ⟨⟨n,rfl⟩,rfl⟩

/-- Whatever records that cannot be read stand among the answers, the same is asked, waited for and delivered. -/
theorem nextEvent_spoilt (h : s.Alike t) (ending : ShapeError) (hxs : List.Forall₂ (Spoils R) xs ys) :
    (s.nextEvent ending xs).subscription.Alike (t.nextEvent ending ys).subscription ∧
    List.Forall₂ (Spoils R) (s.nextEvent ending xs).rest (t.nextEvent ending ys).rest ∧
    (s.nextEvent ending xs).requests = (t.nextEvent ending ys).requests ∧
    (s.nextEvent ending xs).waited = (t.nextEvent ending ys).waited ∧
    (s.nextEvent ending xs).result = (t.nextEvent ending ys).result := by
  induction hxs generalizing s t
  all_goals
    obtain ⟨hbegun,hnext⟩ := h.begin
    rw [nextEvent.eq_def,nextEvent.eq_def]
    rcases hs : s.begin with ⟨s',next⟩
    rcases ht : t.begin with ⟨t',next'⟩
    rw [hs,ht] at hbegun hnext
    obtain rfl : next = next' := hnext
  case nil =>
    cases next with
    | failed e => exact ⟨hbegun,.nil,rfl,rfl,rfl⟩
    | request wait r => exact ⟨hbegun.fail ending,.nil,rfl,rfl,rfl⟩
  case cons x y xs ys hx hxs ih =>
    cases next with
    | failed e => exact ⟨hbegun,.cons hx hxs,rfl,rfl,rfl⟩
    | request wait r =>
      obtain ⟨hreceived,hstep⟩ := hx.receive hbegun
      dsimp only
      rcases hs' : s'.receive x with ⟨s'',step⟩
      rcases ht' : t'.receive y with ⟨t'',step'⟩
      rw [hs',ht'] at hreceived hstep
      obtain rfl : step = step' := hstep
      cases step with
      | failed e => exact ⟨hreceived,hxs,rfl,rfl,rfl⟩
      | deliver e => exact ⟨hreceived,hxs,rfl,rfl,rfl⟩
      | proceed =>
        obtain ⟨hsame,hrest,hrequests,hwaited,hresult⟩ := ih hreceived
        refine ⟨hsame,hrest,congrArg (r::·) hrequests,?_,hresult⟩
        exact congrArg (fun more : Duration => Duration.mk ((wait.getD ⟨0⟩).nanos + more.nanos)) hwaited

/-! ### One batch -/

/-- How many more records are dropped of a batch if some are not taken out of it. -/
def dropsMore (s : Subscription R) (handle : ShapeHandle) (offset : LogOffset) (cut : Cut) : Nat :=
  if s.refuses handle then 0 else if s.isReplay offset then 0 else cut.removed

/-- Records that cannot be read disturb nothing: the batch delivers what it would deliver without them, and leaves
the subscription as it would be left, with the same place, phase and image. Only the count of dropped records is
higher, by those that stand before the first order to start over if the batch is neither refused nor a replay. With
such records in this batch and in any later ones the same is asked, waited for and delivered. -/
theorem applyBatch_without (s : Subscription R) (handle : ShapeHandle) (offset : LogOffset) {cut : Cut}
    (h : cut.Harmless R) :
    (s.applyBatch ⟨handle,offset,cut.whole⟩).2 = (s.applyBatch ⟨handle,offset,cut.kept⟩).2 ∧
    (s.applyBatch ⟨handle,offset,cut.whole⟩).1 = { (s.applyBatch ⟨handle,offset,cut.kept⟩).1 with
      dropped := (s.applyBatch ⟨handle,offset,cut.kept⟩).1.dropped + s.dropsMore handle offset cut } ∧
    ∀ ending xs ys, List.Forall₂ (Spoils R) xs ys →
      let whole := s.nextEvent ending (.ok (.batch ⟨handle,offset,cut.whole⟩)::xs)
      let kept := s.nextEvent ending (.ok (.batch ⟨handle,offset,cut.kept⟩)::ys)
      whole.subscription.Alike kept.subscription ∧ List.Forall₂ (Spoils R) whole.rest kept.rest ∧
        whole.requests = kept.requests ∧ whole.waited = kept.waited ∧ whole.result = kept.result := by
  have hcounts : s.applyBatch ⟨handle,offset,cut.whole⟩ = _ :=
    applyBatch_counts s 0 (readMessages_kept (s.isReplay offset) h)
  rw [hcounts,Nat.zero_add,dropsMore]
  exact ⟨rfl,rfl,fun ending xs ys hxs => nextEvent_spoilt ⟨_,rfl⟩ ending (.cons (.batch handle offset h) hxs)⟩

/-- A batch with a good record, one that is of no type of its columns, and one that is filed under the key of
another, before and after the word that the log has ended. -/
def spoilt : Cut := [(.change (.ofFeature "E1" []),false),
  (.change ⟨"E2",.object [("entity_id",.string "E2"),("status",.int 3)],⟨.insert,[]⟩⟩,true),
  (.control .upToDate,false),(.change { ChangeMessage.ofFeature "E4" [] with key := "E3" },true)]

private theorem spoilt_harmless : spoilt.Harmless Entity := by
  intro x hx hout
  simp only [spoilt,List.mem_cons,List.not_mem_nil,or_false] at hx
  rcases hx with rfl | rfl | rfl | rfl
  · cases hout
  · exact decodeChange_eq_none_iff.mp (by decide +kernel)
  · cases hout
  · exact decodeChange_eq_none_iff.mp (by decide +kernel)

/-- A live subscription delivers the good record and counts the two others, unless the batch is a replay, is
refused or starts with an order to start over. -/
theorem applyBatch_without_spoilt : ∃ s : Subscription Entity, s = resume .default 7 ⟨⟨"a"⟩,.at 1 0⟩ ∧
    (s.applyBatch ⟨⟨"a"⟩,.at 2 0,spoilt.whole⟩).2 = some (.changes [⟨"E1",some (.inState "E1" .ready),[]⟩]) ∧
    (s.applyBatch ⟨⟨"a"⟩,.at 2 0,spoilt.whole⟩).1.dropped = 2 ∧
    (s.applyBatch ⟨⟨"a"⟩,.at 1 0,spoilt.whole⟩).1.dropped = 0 ∧
    (s.applyBatch ⟨⟨"b"⟩,.at 2 0,spoilt.whole⟩).1.dropped = 0 ∧
    (s.applyBatch ⟨⟨"a"⟩,.at 2 0,Cut.whole ((.control .mustRefetch,false)::spoilt)⟩).1.dropped = 0 := by
  obtain ⟨s,hs⟩ : ∃ s : Subscription Entity, s = resume .default 7 ⟨⟨"a"⟩,.at 1 0⟩ := ⟨_,rfl⟩
  have hcount : ∀ handle offset, (s.applyBatch ⟨handle,offset,spoilt.whole⟩).1.dropped =
      (s.applyBatch ⟨handle,offset,spoilt.kept⟩).1.dropped + s.dropsMore handle offset spoilt := fun handle offset =>
    congrArg dropped (s.applyBatch_without handle offset spoilt_harmless).2.1
  have hlater : Cut.Harmless Entity ((.control .mustRefetch,false)::spoilt) := by
    intro x hx hout
    rcases List.mem_cons.mp hx with rfl | hx
    · cases hout
    · exact spoilt_harmless x hx hout
  refine ⟨s,hs,?_,?_,?_,?_,?_⟩
  · rw [(s.applyBatch_without _ _ spoilt_harmless).1,hs]
    decide +kernel
  · rw [hcount,hs]
    decide +kernel
  · rw [hcount,hs]
    decide +kernel
  · rw [hcount,hs]
    decide +kernel
  · rw [(s.applyBatch_without _ _ hlater).2.1,hs]
    decide +kernel

end Subscription
end FieldReplica
