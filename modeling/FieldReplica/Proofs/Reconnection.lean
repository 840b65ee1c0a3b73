import Mathlib.Data.List.Induction
import FieldReplica.Proofs.Gathering
import FieldReplica.Proofs.Replication

/-!
# Failures in a row

A subscription makes one attempt after another. A failure that may pass is reported together with the wait
before the next attempt, which asks for the same again; the waits grow with the failures in a row, up to a
limit. The subscription ends with the first failure that will not pass, or when there have been too many in a
row, and from then on it has nothing else to say.
-/
namespace FieldReplica

/-! ### The waits of a policy -/

namespace ReconnectPolicy

private theorem nanos_delay (p : ReconnectPolicy) (n : Nat) : (p.delay n).nanos =
    min p.maxDelay.nanos (min Duration.max.nanos (p.baseDelay.nanos * Nat.pow 2 (min (n - 1) 16))) := by
  have hpow : 1 <<< min (n - 1) 16 = Nat.pow 2 (min (n - 1) 16) := Nat.one_shiftLeft _
  have hshorter : ∀ a b : Duration, (a.shorter b).nanos = min b.nanos a.nanos := by
    intro a b
    rw [Duration.shorter]
    split <;> omega
  rw [delay,hshorter,Duration.times,hshorter,hpow]

private theorem delay_mono (p : ReconnectPolicy) {n m : Nat} (h : n ≤ m) :
    (p.delay n).nanos ≤ (p.delay m).nanos := by
  have hexp : min (n - 1) 16 ≤ min (m - 1) 16 := by omega
  have hpow : Nat.pow 2 (min (n - 1) 16) ≤ Nat.pow 2 (min (m - 1) 16) :=
    Nat.pow_le_pow_right (by decide) hexp
  have hmul := Nat.mul_le_mul_left p.baseDelay.nanos hpow
  rw [nanos_delay,nanos_delay]
  omega

end ReconnectPolicy

/-- Whether an outcome is a failure that may pass. -/
def passes : Except ShapeError ShapeResponse → Bool
  | .error e => !e.isPermanent
  | .ok _ => false

/-- The failures in a row at the end of some outcomes. -/
def streak (xs : List (Except ShapeError ShapeResponse)) : Nat := (xs.reverse.takeWhile passes).length

private theorem streak_snoc (xs : List (Except ShapeError ShapeResponse)) (x : Except ShapeError ShapeResponse) :
    streak (xs ++ [x]) = if passes x then streak xs + 1 else 0 := by
  rw [streak,List.reverse_append,List.reverse_singleton,List.singleton_append,List.takeWhile_cons]
  split <;> rfl

namespace Subscription

variable {R : Type}

/-- The wait that is reported with a step. -/
def Step.pause? : Step R → Option Duration
  | .deliver (.reconnecting _ delay _) => some delay
  | _ => none

/-- What a call for the next event returns with a step, if the step ends it. -/
def Step.result? : Step R → Option (Except ShapeError (ShapeEvent R))
  | .proceed => none
  | .deliver e => some (.ok e)
  | .failed e => some (.error e)

end Subscription

open Subscription

/-- Where a subscription stands when it asks, and the outcome that it takes in. -/
structure Attempt (R : Type) where
  before : Subscription R
  outcome : Except ShapeError ShapeResponse

namespace Attempt

variable {R : Type} [Row R]

def wait (a : Attempt R) : Option Duration := a.before.delay

def request (a : Attempt R) : ShapeRequest := a.before.request

def after (a : Attempt R) : Subscription R :=
  (({ a.before with delay := none } : Subscription R).receive a.outcome).1

def step (a : Attempt R) : Step R :=
  (({ a.before with delay := none } : Subscription R).receive a.outcome).2

/-- Whether an attempt ends a call. -/
def speaks (a : Attempt R) : Bool := a.step.result?.isSome

def waited : List (Attempt R) → Duration
  | [] => ⟨0⟩
  | a::as => ⟨(a.wait.getD ⟨0⟩).nanos + (waited as).nanos⟩

end Attempt

namespace Subscription

variable {R : Type} [Row R] {s : Subscription R}

/-- The attempts in which a subscription takes in some outcomes. -/
def attempts (s : Subscription R) : List (Except ShapeError ShapeResponse) → List (Attempt R)
  | [] => []
  | x::xs =>
    match s.failure with
    | some _ => []
    | none => ⟨s,x⟩::(Attempt.after ⟨s,x⟩).attempts xs

/-! ### One outcome -/

private theorem applyBatch_news (s : Subscription R) (b : ShapeBatch) :
    (∃ handle offset image dropped, (s.applyBatch b).1 = { s with handle, offset, image, dropped }) ∧
      ∀ e, (s.applyBatch b).2 = some e → e.isNews := by
  have hnothing : ∀ e, (none : Option (ShapeEvent R)) = some e → e.isNews := by
    intro e h
    cases h
  have hone : ∀ {e : ShapeEvent R}, e.isNews → ∀ e', some e = some e' → e'.isNews := by
    intro e he e' h
    rwa [← Option.some.inj h]
  rw [applyBatch]
  split
  · exact ⟨⟨_,_,_,_,rfl⟩,hnothing⟩
  · dsimp only
    split
    · exact ⟨⟨_,_,_,_,rfl⟩,hnothing⟩
    · split
      · split
        · exact ⟨⟨_,_,_,_,rfl⟩,hone rfl⟩
        · split
          · exact ⟨⟨_,_,_,_,rfl⟩,hone rfl⟩
          · exact ⟨⟨_,_,_,_,rfl⟩,hnothing⟩
      · split
        · exact ⟨⟨_,_,_,_,rfl⟩,hone rfl⟩
        · exact ⟨⟨_,_,_,_,rfl⟩,hnothing⟩

/-- What an outcome makes of a subscription: an answer ends the streak, and a failure only counts. -/
inductive Received (s : Subscription R) :
    Except ShapeError ShapeResponse → Subscription R → Step R → Prop
  | answer {r step} (handle offset image dropped) (hs : step.pause? = none) (hn : ∀ e, step ≠ .failed e) :
      Received s (.ok r) { s with failures := 0, handle, offset, image, dropped } step
  | permanent {e} (hp : e.isPermanent) : Received s (.error e) { s with failure := some e } (.failed e)
  | exhausted {e} (hp : e.isPermanent = false) (hm : s.policy.maxAttempts ≤ s.failures + 1) :
      Received s (.error e) { s with failures := s.failures + 1, failure := some e } (.failed e)
  | passed {e} (hp : e.isPermanent = false) (hm : ¬ s.policy.maxAttempts ≤ s.failures + 1) :
      Received s (.error e)
        { s with failures := s.failures + 1, delay := some (s.policy.delay (s.failures + 1)) }
        (.deliver (.reconnecting (s.failures + 1) (s.policy.delay (s.failures + 1)) e.message))

theorem received (s : Subscription R) (x : Except ShapeError ShapeResponse) :
    Received s x (s.receive x).1 (s.receive x).2 := by
  have hproceed : ∀ e, (.proceed : Step R) ≠ .failed e := by
    intro e h
    cases h
  rcases x with e | b | _
  · rw [receive]
    split
    · next hp => exact .permanent hp
    · next hp =>
      have hp : e.isPermanent = false := by simpa using hp
      dsimp only
      split
      · next hm => exact .exhausted hp hm
      · next hm => exact .passed hp hm
  · rw [receive_batch]
    obtain ⟨⟨handle,offset,image,dropped,hs⟩,hnews⟩ :=
      applyBatch_news ({ s with failures := 0 } : Subscription R) b
    rw [hs]
    cases he : (({ s with failures := 0 } : Subscription R).applyBatch b).2 with
    | none => exact .answer handle offset image dropped rfl hproceed
    | some e =>
      have hdeliver : ∀ e', (.deliver e : Step R) ≠ .failed e' := by
        intro e' h
        cases h
      refine .answer handle offset image dropped ?_ hdeliver
      have hn := hnews e he
      cases e with
      | reconnecting n delay reason => cases hn
      | snapshot rows resync | changes cs | upToDate => rfl
  · exact .answer none .beforeStart _ s.dropped rfl hproceed

/-! ### Attempt after attempt -/

/-- Where a subscription stands after some attempts. -/
def past (s : Subscription R) (u : List (Attempt R)) : Subscription R := u.foldl (fun _ a => a.after) s

private theorem past_snoc (s : Subscription R) (u : List (Attempt R)) (a : Attempt R) :
    s.past (u ++ [a]) = a.after := by
  rw [past,List.foldl_append]
  rfl

private theorem attempts_cons (hf : s.failure = none) (x : Except ShapeError ShapeResponse)
    (xs : List (Except ShapeError ShapeResponse)) :
    s.attempts (x::xs) = ⟨s,x⟩::(Attempt.after ⟨s,x⟩).attempts xs := by
  rw [attempts,hf]

private theorem attempts_failed {e : ShapeError} (hf : s.failure = some e)
    (xs : List (Except ShapeError ShapeResponse)) : s.attempts xs = [] := by
  cases xs with
  | nil => rfl
  | cons x xs => rw [attempts,hf]

private theorem attempts_eq_cons {xs : List (Except ShapeError ShapeResponse)} {a : Attempt R} {v : List (Attempt R)}
    (h : s.attempts xs = a::v) :
    ∃ ys, xs = a.outcome::ys ∧ a.before = s ∧ s.failure = none ∧ a.after.attempts ys = v := by
  cases xs with
  | nil => cases h
  | cons x xs =>
    cases hf : s.failure with
    | some e =>
      rw [attempts_failed hf] at h
      cases h
    | none =>
      rw [attempts_cons hf] at h
      cases h
      exact ⟨xs,rfl,rfl,rfl,rfl⟩

/-- An attempt takes the outcome that is next, where the attempts before it have left the subscription. -/
theorem attempts_append {xs : List (Except ShapeError ShapeResponse)} {u v : List (Attempt R)}
    {a : Attempt R} (h : s.attempts xs = u ++ a::v) :
    ∃ ys, xs = u.map (·.outcome) ++ a.outcome::ys ∧ a.before = s.past u ∧ a.before.failure = none ∧
      a.after.attempts ys = v := by
  induction u generalizing s xs with
  | nil =>
    obtain ⟨ys,rfl,rfl,hf,hrest⟩ := attempts_eq_cons h
    exact ⟨ys,rfl,rfl,hf,hrest⟩
  | cons b u ih =>
    obtain ⟨ys,rfl,rfl,_,hrest⟩ := attempts_eq_cons h
    obtain ⟨zs,rfl,ha⟩ := ih hrest
    exact ⟨zs,rfl,ha⟩

/-- What some attempts have left of a subscription that follows a policy. -/
structure Steady (policy : ReconnectPolicy) (u : List (Attempt R)) (t : Subscription R) : Prop where
  policy : t.policy = policy
  counted : t.failure = none → t.failures = streak (u.map (·.outcome))
  waits : t.delay = u.getLast?.bind (·.step.pause?)

/-- Only a failure that may pass is counted, and only it brings a wait. -/
theorem after_counts (t : Subscription R) (x : Except ShapeError ShapeResponse) :
    (Attempt.after ⟨t,x⟩).policy = t.policy ∧
      ((Attempt.after ⟨t,x⟩).failure = none →
        (Attempt.after ⟨t,x⟩).failures = if passes x then t.failures + 1 else 0) ∧
      (Attempt.after ⟨t,x⟩).delay = (Attempt.step ⟨t,x⟩).pause? := by
  have hr : Received { t with delay := none } x (Attempt.after ⟨t,x⟩) (Attempt.step ⟨t,x⟩) := received _ x
  generalize Attempt.after ⟨t,x⟩ = t' at hr ⊢
  generalize Attempt.step ⟨t,x⟩ = step at hr ⊢
  cases hr with
  | answer handle offset image dropped hs _ => exact ⟨rfl,fun _ => rfl,hs.symm⟩
  | permanent hp => exact ⟨rfl,nofun,rfl⟩
  | exhausted hp hm => exact ⟨rfl,nofun,rfl⟩
  | passed hp hm =>
    have hpasses : ∀ e : ShapeError, e.isPermanent = false → passes (.error e) = true := by
      intro e he
      rw [passes,he]
      rfl
    exact ⟨rfl,fun _ => (if_pos (hpasses _ hp)).symm,rfl⟩

private theorem steady_after {policy : ReconnectPolicy} {u : List (Attempt R)} {a : Attempt R}
    (hs : Steady policy u a.before) (hf : a.before.failure = none) : Steady policy (u ++ [a]) a.after := by
  obtain ⟨hpolicy,hcounted,hwaits⟩ := after_counts a.before a.outcome
  refine ⟨hpolicy.trans hs.policy,?_,?_⟩
  · intro hnone
    rw [List.map_append,List.map_singleton,streak_snoc,← hs.counted hf]
    exact hcounted hnone
  · rw [List.getLast?_concat]
    exact hwaits

private theorem steady_opened (policy : ReconnectPolicy) (projectId : Int64) (place : Option Position)
    {xs : List (Except ShapeError ShapeResponse)} {u v : List (Attempt R)}
    (h : (opened policy projectId place).attempts xs = u ++ v) :
    Steady policy u ((opened policy projectId place).past u) := by
  induction u using List.reverseRecOn generalizing v with
  | nil => cases place <;> exact ⟨rfl,fun _ => rfl,rfl⟩
  | append_singleton u a ih =>
    rw [List.append_assoc,List.singleton_append] at h
    obtain ⟨_,_,hbefore,hf,_⟩ := attempts_append h
    have hsteady := ih h
    rw [← hbefore] at hsteady
    rw [past_snoc]
    exact steady_after hsteady hf

/-! ### Calls for events -/

private theorem nextEvent_attempt {a : Attempt R} (hf : a.before.failure = none) (ending : ShapeError)
    (xs : List (Except ShapeError ShapeResponse)) : a.before.nextEvent ending (a.outcome::xs) =
      match a.step.result? with
      | some r => ⟨a.after,xs,[a.request],a.wait.getD ⟨0⟩,r⟩
      | none =>
        { a.after.nextEvent ending xs with
          requests := a.request::(a.after.nextEvent ending xs).requests
          waited := ⟨(a.wait.getD ⟨0⟩).nanos + (a.after.nextEvent ending xs).waited.nanos⟩ } := by
  obtain ⟨t,x⟩ := a
  have hb : t.begin = ({ t with delay := none },.request t.delay t.request) := by
    rw [begin]
    dsimp only at hf
    rw [hf]
  rw [nextEvent,hb]
  dsimp only [Attempt.after,Attempt.step]
  cases ({ t with delay := none } : Subscription R).receive x with
  | mk t' step => cases step <;> rfl

private theorem turn_attempt {a : Attempt R} (hf : a.before.failure = none) (ending : ShapeError)
    (xs : List (Except ShapeError ShapeResponse)) (n : Nat) :
    a.before.turn ending (a.outcome::xs) (n + 1) =
      a.after.turn ending xs (if a.speaks then n else n + 1) := by
  rw [turn,nextEvent_attempt hf,Attempt.speaks]
  split
  · next h => rw [h]; rfl
  · next h => rw [h]; rfl

/-- A call for the next event is a stretch of attempts of which only the last one has something to say. -/
theorem nextEvent_of_attempts {xs : List (Except ShapeError ShapeResponse)} {c v : List (Attempt R)}
    {a : Attempt R} (h : s.attempts xs = c ++ a::v) (hc : ∀ b ∈ c, ¬ b.speaks)
    {r : Except ShapeError (ShapeEvent R)} (hr : a.step.result? = some r) (ending : ShapeError) :
    s.nextEvent ending xs = ⟨a.after,xs.drop (c.length + 1),(c ++ [a]).map (·.request),
      Attempt.waited (c ++ [a]),r⟩ := by
  induction c generalizing s xs with
  | nil =>
    obtain ⟨ys,rfl,rfl,hf,_⟩ := attempts_eq_cons h
    rw [nextEvent_attempt hf,hr]
    rfl
  | cons b c ih =>
    obtain ⟨ys,rfl,rfl,hf,hrest⟩ := attempts_eq_cons h
    have hsilent : b.step.result? = none := by
      simpa [Attempt.speaks] using hc b List.mem_cons_self
    have hnext := ih hrest fun b hb => hc b (List.mem_cons_of_mem _ hb)
    rw [nextEvent_attempt hf,hsilent,hnext]
    rfl

/-- The calls one after another: each begins where an attempt has ended the one before it. -/
theorem turn_of_attempts {xs : List (Except ShapeError ShapeResponse)} {u c v : List (Attempt R)}
    {a : Attempt R} (h : s.attempts xs = u ++ (c ++ a::v)) (hu : ∀ b ∈ u.getLast?, b.speaks)
    (hc : ∀ b ∈ c, ¬ b.speaks) {r : Except ShapeError (ShapeEvent R)}
    (hr : a.step.result? = some r) (ending : ShapeError) :
    s.turn ending xs (u.countP (·.speaks)) = ⟨a.after,xs.drop (u.length + (c.length + 1)),
      (c ++ [a]).map (·.request),Attempt.waited (c ++ [a]),r⟩ := by
  induction u generalizing s xs with
  | nil =>
    rw [List.length_nil,Nat.zero_add]
    exact nextEvent_of_attempts h hc hr ending
  | cons b u ih =>
    obtain ⟨ys,rfl,rfl,hf,hrest⟩ := attempts_eq_cons h
    have hlater : ∀ b ∈ u.getLast?, b.speaks := by
      intro d hd
      apply hu d
      rw [List.getLast?_cons,Option.mem_def.mp hd]
      rfl
    have hturn := ih hrest hlater
    have hdrop : (b.outcome::ys).drop ((b::u).length + (c.length + 1)) =
        ys.drop (u.length + (c.length + 1)) := by
      rw [List.length_cons,Nat.add_right_comm,List.drop_succ_cons]
    rw [hdrop]
    by_cases hsp : b.speaks
    · rw [List.countP_cons_of_pos hsp,turn_attempt hf,if_pos hsp]
      exact hturn
    · -- A silent attempt is not the last one before a call, so the count goes on.
      obtain ⟨n,hn⟩ : ∃ n, u.countP (·.speaks) = n + 1 := by
        cases hlast : u.getLast? with
        | none =>
          obtain rfl := List.getLast?_eq_none_iff.mp hlast
          exact absurd (hu b rfl) hsp
        | some d =>
          have hpos := List.countP_pos_iff.mpr ⟨d,List.mem_of_getLast? hlast,hlater d hlast⟩
          exact ⟨_,(Nat.sub_add_cancel hpos).symm⟩
      rw [List.countP_cons_of_neg hsp,hn,turn_attempt hf,if_neg hsp,← hn]
      exact hturn

/-! ### The discipline -/

private theorem turn_failed {e : ShapeError} (hf : s.failure = some e) (ending : ShapeError)
    (xs : List (Except ShapeError ShapeResponse)) (n : Nat) :
    s.turn ending xs n = ⟨s,xs,[],⟨0⟩,.error e⟩ := by
  have hnext : s.nextEvent ending xs = ⟨s,xs,[],⟨0⟩,.error e⟩ := by
    have hb : s.begin = (s,.failed e) := by rw [begin,hf]
    rw [nextEvent,hb]
  induction n with
  | zero => exact hnext
  | succ n ih =>
    rw [turn,hnext]
    exact ih

private theorem attempts_all (s : Subscription R) (xs : List (Except ShapeError ShapeResponse)) :
    ∃ ys, xs = (s.attempts xs).map (·.outcome) ++ ys ∧
      (ys = [] ∨ (s.past (s.attempts xs)).failure.isSome) := by
  induction xs generalizing s with
  | nil => exact ⟨[],rfl,.inl rfl⟩
  | cons x xs ih =>
    cases hf : s.failure with
    | some e =>
      rw [attempts_failed hf]
      exact ⟨x::xs,rfl,.inr (by rw [past,List.foldl_nil,hf]; rfl)⟩
    | none =>
      obtain ⟨ys,hys,hover⟩ := ih (Attempt.after ⟨s,x⟩)
      rw [attempts_cons hf]
      exact ⟨ys,congrArg (x::·) hys,hover⟩

/-- What a subscription that follows a policy does in an attempt, after some others and before some more. -/
structure Tried (policy : ReconnectPolicy) (u : List (Attempt R)) (a : Attempt R) (v : List (Attempt R)) :
    Prop where
  /-- It waits exactly if the attempt before it has said so, and as long as that has said. -/
  waits : a.wait = u.getLast?.bind (·.step.pause?)
  answered : ∀ {r}, a.outcome = .ok r → a.step.pause? = none ∧ ∀ e, a.step ≠ .failed e
  failing : ∀ {e}, a.outcome = .error e →
    let n := streak (u.map (·.outcome)) + 1
    a.step = if e.isPermanent ∨ policy.maxAttempts ≤ n then .failed e
      else .deliver (.reconnecting n (policy.delay n) e.message)
  kept : ∀ {e}, a.outcome = .error e → a.after.handle = a.before.handle ∧
    a.after.offset = a.before.offset ∧ a.after.image = a.before.image ∧
    a.after.dropped = a.before.dropped ∧ ∀ b ∈ v.head?, b.request = a.request
  /-- The waits grow with the failures in a row. -/
  growing : ∀ {d}, a.step.pause? = some d → d.nanos ≤ policy.maxDelay.nanos ∧
    ∀ b ∈ v.head?, ∀ {d'}, b.step.pause? = some d' → d.nanos ≤ d'.nanos
  ended : ∀ {e}, a.step = .failed e → a.outcome = .error e ∧ v = [] ∧ a.after.phase = .failed ∧
    a.after.position = none ∧
    ∀ ending ys n, a.after.turn ending ys n = ⟨a.after,ys,[],⟨0⟩,.error e⟩
  goesOn : (∀ e, a.step ≠ .failed e) → a.after.phase ≠ .failed

/-- The discipline of a subscription under failures, whatever the outcomes of its requests are. -/
structure Disciplined (policy : ReconnectPolicy) (s : Subscription R)
    (xs : List (Except ShapeError ShapeResponse)) : Prop where
  taken : ∃ ys, xs = (s.attempts xs).map (·.outcome) ++ ys ∧
    (ys = [] ∨ (s.past (s.attempts xs)).phase = .failed)
  tried : ∀ {u v a}, s.attempts xs = u ++ a::v → Tried policy u a v
  /-- A call returns what the first attempt of it that has something to say leads to. -/
  calls : ∀ {u c v a r}, s.attempts xs = u ++ (c ++ a::v) → (∀ b ∈ u.getLast?, b.speaks) →
    (∀ b ∈ c, ¬ b.speaks) → a.step.result? = some r → ∀ ending,
    s.turn ending xs (u.countP (·.speaks)) = ⟨a.after,xs.drop (u.length + (c.length + 1)),
      (c ++ [a]).map (·.request),Attempt.waited (c ++ [a]),r⟩
  delays : ∀ n, (policy.delay n).nanos = min policy.maxDelay.nanos
    (min Duration.max.nanos (policy.baseDelay.nanos * Nat.pow 2 (min (n - 1) 16)))

section Steady

variable {policy : ReconnectPolicy} {u v : List (Attempt R)} {a : Attempt R}

private theorem step_of_error (hs : Steady policy u a.before) (hf : a.before.failure = none) {e : ShapeError}
    (he : a.outcome = .error e) :
    let n := streak (u.map (·.outcome)) + 1
    a.step = if e.isPermanent ∨ policy.maxAttempts ≤ n then .failed e
      else .deliver (.reconnecting n (policy.delay n) e.message) := by
  have hr : Received { a.before with delay := none } a.outcome a.after a.step := received _ _
  intro n
  have hn : a.before.failures + 1 = n := congrArg (· + 1) (hs.counted hf)
  rw [he] at hr
  generalize a.after = t at hr
  generalize a.step = step at hr ⊢
  cases hr with
  | permanent hp => rw [if_pos (.inl hp)]
  | exhausted hp hm =>
    dsimp only at hm
    rw [hs.policy,hn] at hm
    rw [if_pos (.inr hm)]
  | passed hp hm =>
    dsimp only at hm ⊢
    rw [hs.policy,hn] at hm ⊢
    rw [if_neg (by simp [hp,hm])]

private theorem kept_of_error {e : ShapeError} (he : a.outcome = .error e) :
    a.after.handle = a.before.handle ∧ a.after.offset = a.before.offset ∧
      a.after.image = a.before.image ∧ a.after.dropped = a.before.dropped ∧
      a.after.request = a.request := by
  have hr : Received { a.before with delay := none } a.outcome a.after a.step := received _ _
  have hproject : ∀ t : Subscription R, t.projectId = a.before.projectId → t.handle = a.before.handle →
      t.offset = a.before.offset → t.image = a.before.image → t.request = a.request := by
    intro t hp hh ho hi
    rw [Attempt.request,request,request,hp,hh,ho,hi]
  rw [he] at hr
  generalize a.after = t at hr ⊢
  generalize a.step = step at hr
  cases hr <;> exact ⟨rfl,rfl,rfl,rfl,hproject _ rfl rfl rfl rfl⟩

private theorem answered_of_ok {r : ShapeResponse} (h : a.outcome = .ok r) :
    a.step.pause? = none ∧ ∀ e, a.step ≠ .failed e := by
  have hr : Received { a.before with delay := none } a.outcome a.after a.step := received _ _
  rw [h] at hr
  generalize a.after = t at hr
  generalize a.step = step at hr ⊢
  cases hr with
  | answer handle offset image dropped hp hn => exact ⟨hp,hn⟩

/-- A wait is that of the streak which a failure makes longer. -/
theorem pause_eq (hs : Steady policy u a.before) (hf : a.before.failure = none) {d : Duration}
    (hd : a.step.pause? = some d) : d = policy.delay (streak (u.map (·.outcome)) + 1) ∧
      streak ((u ++ [a]).map (·.outcome)) = streak (u.map (·.outcome)) + 1 := by
  cases ho : a.outcome with
  | ok r =>
    rw [(answered_of_ok ho).1] at hd
    cases hd
  | error e =>
    have hstep := step_of_error hs hf ho
    dsimp only at hstep
    rw [hstep] at hd
    split at hd
    · cases hd
    · next hgo =>
      cases hd
      have hpasses : passes a.outcome = true := by
        rw [ho,passes]
        simpa using fun h => hgo (.inl h)
      rw [List.map_append,List.map_singleton,streak_snoc,if_pos hpasses]
      exact ⟨rfl,rfl⟩

private theorem failure_after (hf : a.before.failure = none) :
    (∃ e, a.step = .failed e ∧ a.outcome = .error e ∧ a.after.failure = some e) ∨
      (∀ e, a.step ≠ .failed e) ∧ a.after.failure = none := by
  have hr : Received { a.before with delay := none } a.outcome a.after a.step := received _ _
  generalize a.after = t at hr ⊢
  generalize a.outcome = x at hr ⊢
  generalize a.step = step at hr ⊢
  cases hr with
  | answer handle offset image dropped hp hn => exact .inr ⟨hn,hf⟩
  | permanent hp => exact .inl ⟨_,rfl,rfl,rfl⟩
  | exhausted hp hm => exact .inl ⟨_,rfl,rfl,rfl⟩
  | passed hp hm => exact .inr ⟨nofun,hf⟩

omit [Row R] in
private theorem phase_eq_failed : s.phase = .failed ↔ s.failure.isSome := by
  rw [phase]
  split
  · next h => simp [h]
  · next h => split <;> simp [h]

private theorem tried_opened (projectId : Int64) (place : Option Position)
    {xs : List (Except ShapeError ShapeResponse)}
    (h : (opened policy projectId place).attempts xs = u ++ a::v) : Tried policy u a v := by
  obtain ⟨ys,_,hbefore,hf,hrest⟩ := attempts_append h
  have hs : Steady policy u a.before := by
    rw [hbefore]
    exact steady_opened policy projectId place h
  have hnext : ∀ b ∈ v.head?, b.before = a.after ∧ b.before.failure = none := by
    intro b hb
    obtain ⟨v',rfl⟩ := List.head?_eq_some_iff.mp hb
    obtain ⟨_,_,hbefore,hf,_⟩ := attempts_eq_cons hrest
    rw [hbefore]
    exact ⟨rfl,hf⟩
  constructor
  case waits => exact hs.waits
  case answered => exact answered_of_ok
  case failing => exact step_of_error hs hf
  case kept =>
    intro e he
    obtain ⟨hh,ho,hi,hd,hq⟩ := kept_of_error he
    refine ⟨hh,ho,hi,hd,?_⟩
    intro b hb
    rw [Attempt.request,(hnext b hb).1]
    exact hq
  case growing =>
    intro d hd
    obtain ⟨rfl,hstreak⟩ := pause_eq hs hf hd
    constructor
    · rw [ReconnectPolicy.nanos_delay]
      omega
    · intro b hb d' hd'
      obtain ⟨hbefore,hbf⟩ := hnext b hb
      have hsb : Steady policy (u ++ [a]) b.before := by
        rw [hbefore]
        exact steady_after hs hf
      obtain ⟨rfl,_⟩ := pause_eq hsb hbf hd'
      apply ReconnectPolicy.delay_mono
      omega
  case ended =>
    intro e he
    rcases failure_after hf with ⟨e',hstep,ho,hfail⟩ | ⟨hstep,_⟩
    · obtain rfl : e' = e := Step.failed.inj (hstep.symm.trans he)
      have hphase : a.after.phase = .failed := phase_eq_failed.mpr (by rw [hfail]; rfl)
      have hnone : v = [] := by
        rw [← hrest,attempts_failed hfail]
      have hposition : a.after.position = none := by
        rw [position,hphase]
        rfl
      exact ⟨ho,hnone,hphase,hposition,fun ending ys n => turn_failed hfail ending ys n⟩
    · exact absurd he (hstep e)
  case goesOn =>
    intro hgo
    rcases failure_after hf with ⟨e,hstep,_⟩ | ⟨_,hfail⟩
    · exact absurd hstep (hgo e)
    · rw [Ne,phase_eq_failed,hfail]
      exact Bool.false_ne_true

end Steady

/-- A subscription follows its policy: failures in a row are counted, each of them but the last brings one
wait before the same request, and what ends the subscription is all that it says from then on. -/
theorem disciplined_opened (policy : ReconnectPolicy) (projectId : Int64) (place : Option Position)
    (xs : List (Except ShapeError ShapeResponse)) :
    Disciplined policy (opened policy projectId place : Subscription R) xs := by
  constructor
  case taken =>
    obtain ⟨ys,hys,hover⟩ := attempts_all (opened policy projectId place : Subscription R) xs
    rw [← phase_eq_failed] at hover
    exact ⟨ys,hys,hover⟩
  case tried => exact tried_opened projectId place
  case calls => exact fun h hu hc hr ending => turn_of_attempts h hu hc hr ending
  case delays => exact policy.nanos_delay

example :
    let reset : Except ShapeError ShapeResponse := .error (.transient "reset")
    let policy : ReconnectPolicy := ⟨.ofMillis 250,.ofMillis 400,3⟩
    ((opened policy 7 none : Subscription Entity).attempts [reset,reset,reset,reset]).map (·.wait) =
      [none,some (.ofMillis 250),some (.ofMillis 400)] := by decide +kernel

end Subscription
end FieldReplica
