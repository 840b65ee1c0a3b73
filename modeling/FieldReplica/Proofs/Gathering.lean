import FieldReplica.Proofs.Run
import FieldReplica.Proofs.Tracking

/-!
# The pages of an image

An image is gathered from pages, each of them asked for under the handle of the page before it. The rows
that are delivered at its end were carried by these pages, and the place that is reached then has the handle
of the last one. All the pages are of that shape exactly if no page came under another handle than the one
it was asked for: while it gathers an image, a subscription takes a page of any handle.
-/
namespace FieldReplica

/-- A request and its outcome. -/
structure Exchange where
  request : ShapeRequest
  outcome : Except ShapeError ShapeResponse

/-- A batch that became a part of an image, and the request that it answers. -/
structure Page where
  request : ShapeRequest
  batch : ShapeBatch

namespace Page

/-- Whether a page has the handle that it was asked for, if it was asked for one. -/
def Own (p : Page) : Prop := ∀ h ∈ p.request.handle, h = p.batch.handle

instance (p : Page) : Decidable p.Own :=
  inferInstanceAs (Decidable (∀ h ∈ p.request.handle, h = p.batch.handle))

variable {R : Type} [Row R]

/-- The changes that a page brings; none if it reaches no further than the offset it was asked for. -/
def changes (p : Page) : List (RemoteChange R) :=
  (Subscription.readMessages (p.request.offset ≠ .beforeStart && p.batch.offset.le p.request.offset)
    p.batch.messages).changes

/-- Whether a page brings a row. -/
def Carries (p : Page) (row : R) : Prop := ∃ c ∈ (p.changes : List (RemoteChange R)), c.row = some row

instance [DecidableEq R] (p : Page) (row : R) : Decidable (p.Carries row) :=
  inferInstanceAs (Decidable (∃ c ∈ (p.changes : List (RemoteChange R)), c.row = some row))

end Page

/-- The pages of the image under way, or of the one that is complete, after another exchange. They are
dropped by whatever makes the image void. -/
def Exchange.extend (ps : List Page) (x : Exchange) : List Page :=
  match x.outcome with
  | .error _ => ps
  | .ok .mustRefetch => []
  | .ok (.batch b) =>
    if x.request.live = true ∨ .control .mustRefetch ∈ b.messages then [] else ps ++ [⟨x.request,b⟩]

/-- The pages of the image under way, or of the last one, after some exchanges. -/
def pages (xs : List Exchange) : List Page := xs.foldl Exchange.extend []

/-- The rows that pages make, one after another. -/
def rowsOf {R : Type} [Row R] (ps : List Page) : Table String R :=
  (ps.flatMap Page.changes).foldl Subscription.Image.apply .empty

namespace Subscription

variable {R : Type} [Row R] {s : Subscription R} {ps : List Page}

/-- What a subscription has from some pages: the handle of the last one, and the rows of its image. -/
structure Gathers (s : Subscription R) (ps : List Page) : Prop where
  placed : s.handle = ps.getLast?.map (·.batch.handle) ∨ ps = [] ∧ s.image = none
  alike : (∀ p ∈ ps, s.handle = some p.batch.handle) ↔ ∀ p ∈ ps, p.Own
  made : ∀ image, s.image = some image → image.rows = rowsOf ps

/-! ### One outcome -/

private theorem gathers_nil (hi : s.handle = none ∨ s.image = none)
    (hr : ∀ image, s.image = some image → image.rows = .empty) : s.Gathers [] where
  placed := by
    rcases hi with hi | hi
    · exact .inl hi
    · exact .inr ⟨rfl,hi⟩
  alike := by simp
  made := hr

private theorem gathers_restart (s : Subscription R) : s.restart.Gathers [] := by
  apply gathers_nil (.inl rfl)
  intro image h
  cases h
  rfl

theorem Gathers.congr {t : Subscription R} (hs : s.Gathers ps) (hh : t.handle = s.handle)
    (hi : t.image = s.image) : t.Gathers ps where
  placed := by rw [hh,hi]; exact hs.placed
  alike := by rw [hh]; exact hs.alike
  made := by rw [hi]; exact hs.made

/-- If the handle is that of the last page, one more page keeps the pages of one shape exactly if it is of
the shape that was asked for. -/
theorem alike_snoc {handle : Option ShapeHandle} {q : ShapeRequest} {b : ShapeBatch}
    (hq : q.handle = handle) (hplaced : handle = ps.getLast?.map (·.batch.handle))
    (halike : (∀ p ∈ ps, handle = some p.batch.handle) ↔ ∀ p ∈ ps, p.Own) :
    (∀ p ∈ ps ++ [⟨q,b⟩], some b.handle = some p.batch.handle) ↔ ∀ p ∈ ps ++ [⟨q,b⟩], p.Own := by
  simp only [List.mem_append,List.mem_singleton,Option.some.injEq]
  constructor
  · intro hall
    -- Under one handle, the handle that was asked for is the one of the last page.
    have hsame : ∀ h, handle = some h → h = b.handle := by
      intro h hh
      rw [hplaced,Option.map_eq_some_iff] at hh
      obtain ⟨p,hlast,rfl⟩ := hh
      exact (hall p (.inl (List.mem_of_getLast? hlast))).symm
    have hold : ∀ p ∈ ps, handle = some p.batch.handle := by
      intro p hp
      obtain ⟨last,hlast⟩ : ∃ last, ps.getLast? = some last :=
        ⟨_,List.getLast?_eq_some_getLast (List.ne_nil_of_mem hp)⟩
      have hh : handle = some last.batch.handle := by rw [hplaced,hlast]; rfl
      rw [hh,hsame _ hh,hall p (.inl hp)]
    intro p hp
    rcases hp with hp | rfl
    · exact halike.mp hold p hp
    · intro h hh
      exact hsame h (hq.symm.trans hh)
  · intro hall p hp
    rcases hp with hp | rfl
    · have hh : handle = some p.batch.handle := halike.mpr (fun p hp => hall p (.inl hp)) p hp
      exact (hall ⟨q,b⟩ (.inr rfl) _ (hq.trans hh)).symm
    · rfl

private theorem rowsOf_snoc (ps : List Page) (p : Page) :
    (rowsOf (ps ++ [p]) : Table String R) = p.changes.foldl Image.apply (rowsOf ps) := by
  rw [rowsOf,List.flatMap_append,List.foldl_append,List.flatMap_singleton]
  rfl

/-- A row that pages make is brought by one of them. -/
theorem carried_of_mem {row : R} (h : row ∈ (rowsOf ps).values) : ∃ p ∈ ps, p.Carries row := by
  obtain ⟨⟨key,_⟩,he,rfl⟩ := List.mem_map.mp h
  rw [Table.mem_entries,rowsOf,find?_foldl_apply,Table.find?_empty] at he
  rcases lastUnder_cases key ((ps.flatMap Page.changes).map fun c : RemoteChange R => (c.key,c.row)) none
    with ⟨hv,_⟩ | ⟨e,hm,_,hv⟩
  · cases hv.symm.trans he
  · obtain ⟨c,hc,rfl⟩ := List.mem_map.mp hm
    obtain ⟨p,hp,hc⟩ := List.mem_flatMap.mp hc
    exact ⟨p,hp,c,hc,hv.symm.trans he⟩

/-- What a step says of the pages: an image that it delivers is theirs. -/
def FromPages (ps : List Page) (s : Subscription R) : Step R → Prop
  | .deliver (.snapshot rows _) => s.image = none ∧ ps ≠ [] ∧ rows = (rowsOf ps).values
  | _ => True

private theorem applyBatch_gathers (hs : s.Gathers ps) (b : ShapeBatch) :
    (s.applyBatch b).1.Gathers (Exchange.extend ps ⟨s.request,.ok (.batch b)⟩) ∧
      FromPages (Exchange.extend ps ⟨s.request,.ok (.batch b)⟩) (s.applyBatch b).1
        (Step.ofEvent? (s.applyBatch b).2) := by
  rw [Exchange.extend]
  dsimp only
  by_cases hover : .control .mustRefetch ∈ b.messages ∨
      s.image = none ∧ ∃ h, s.handle = some h ∧ h ≠ b.handle
  · have hdrop : s.request.live = true ∨ .control .mustRefetch ∈ b.messages := by
      rcases hover with hc | ⟨hi,_⟩
      · exact .inr hc
      · exact .inl (Option.isNone_iff_eq_none.mpr hi)
    obtain ⟨n,h⟩ := applyBatch_starts_over hover
    rw [if_pos hdrop,h]
    exact ⟨gathers_restart _,trivial⟩
  · have hc : .control .mustRefetch ∉ b.messages := fun hc => hover (.inl hc)
    have hgo : ¬ (readMessages (R := R) (s.isReplay b.offset) b.messages).mustRefetch = true :=
      fun h => hc ((readMessages_mustRefetch _ _).mp h)
    have hown : ¬ (s.image.isNone && s.handle.any (· ≠ b.handle)) = true := by
      intro h
      simp only [Bool.and_eq_true,Option.isNone_iff_eq_none,Option.any_eq_true,decide_eq_true_eq] at h
      exact hover (.inr h)
    rw [applyBatch,if_neg hown]
    dsimp only
    rw [if_neg hgo]
    cases hi : s.image with
    | none =>
      have hdrop : s.request.live = true ∨ .control .mustRefetch ∈ b.messages :=
        .inl (Option.isNone_iff_eq_none.mpr hi)
      rw [if_pos hdrop]
      have hnew : ∀ n, ({ s with
          dropped := n
          handle := some b.handle
          offset := later s.offset b.offset
          image := none } : Subscription R).Gathers [] := by
        intro n
        exact gathers_nil (.inr rfl) (by simp)
      dsimp only
      split
      · exact ⟨hnew _,trivial⟩
      · split
        · exact ⟨hnew _,trivial⟩
        · exact ⟨hnew _,trivial⟩
    | some image =>
      have hadd : ¬ (s.request.live = true ∨ .control .mustRefetch ∈ b.messages) := by
        rintro (hl | h)
        · rw [request,hi] at hl
          cases hl
        · exact hc h
      rw [if_neg hadd]
      have hplaced : s.handle = ps.getLast?.map (·.batch.handle) := by
        rcases hs.placed with h | ⟨_,h⟩
        · exact h
        · cases hi.symm.trans h
      have halike := alike_snoc (q := s.request) (b := b) rfl hplaced hs.alike
      have hmade : (readMessages (s.isReplay b.offset) b.messages).changes.foldl Image.apply image.rows =
          (rowsOf (ps ++ [⟨s.request,b⟩]) : Table String R) := by
        rw [rowsOf_snoc,hs.made image hi]
        rfl
      have hlast : some b.handle = (ps ++ [(⟨s.request,b⟩ : Page)]).getLast?.map (·.batch.handle) := by
        simp
      dsimp only
      split
      · exact ⟨⟨.inl hlast,halike,by simp⟩,rfl,by simp,congrArg Table.values hmade⟩
      · refine ⟨⟨.inl hlast,halike,?_⟩,trivial⟩
        intro i h
        cases h
        exact hmade

private theorem receive_gathers (hs : s.Gathers ps) (x : Except ShapeError ShapeResponse) :
    (s.receive x).1.Gathers (Exchange.extend ps ⟨s.request,x⟩) ∧
      FromPages (Exchange.extend ps ⟨s.request,x⟩) (s.receive x).1 (s.receive x).2 := by
  rcases x with e | b | _
  · rw [receive,Exchange.extend]
    split
    · exact ⟨hs.congr rfl rfl,trivial⟩
    · dsimp only
      split
      · exact ⟨hs.congr rfl rfl,trivial⟩
      · exact ⟨hs.congr rfl rfl,trivial⟩
  · rw [receive_batch]
    exact applyBatch_gathers (s := { s with failures := 0 }) (hs.congr rfl rfl) b
  · exact ⟨gathers_restart _,trivial⟩

/-! ### Calls for events -/

/-- The exchanges in a call for the next event: every request with its outcome, and the one that is asked
after all outcomes with the ending. -/
def exchanges (s : Subscription R) (ending : ShapeError)
    (xs : List (Except ShapeError ShapeResponse)) : List Exchange :=
  List.zipWith Exchange.mk (s.nextEvent ending xs).requests (xs ++ [.error ending])

/-- A call for the next event, after some others. -/
def turn (s : Subscription R) (ending : ShapeError) (xs : List (Except ShapeError ShapeResponse)) :
    Nat → Turn R
  | 0 => s.nextEvent ending xs
  | n + 1 => (s.nextEvent ending xs).subscription.turn ending (s.nextEvent ending xs).rest n

/-- The exchanges in some calls for the next event. -/
def exchangesIn (s : Subscription R) (ending : ShapeError)
    (xs : List (Except ShapeError ShapeResponse)) : Nat → List Exchange
  | 0 => []
  | n + 1 => s.exchanges ending xs ++
    (s.nextEvent ending xs).subscription.exchangesIn ending (s.nextEvent ending xs).rest n

/-- What a call for an event says of the pages. -/
structure Turn.Gathered (t : Turn R) (ps : List Page) : Prop where
  gathers : t.subscription.Gathers ps
  delivered : ∀ {rows resync}, t.result = .ok (.snapshot rows resync) →
    t.subscription.failure = none ∧ FromPages ps t.subscription (.deliver (.snapshot rows resync))

private theorem nextEvent_gathered (hs : s.Gathers ps) (ending : ShapeError)
    (xs : List (Except ShapeError ShapeResponse)) :
    (s.nextEvent ending xs).Gathered ((s.exchanges ending xs).foldl Exchange.extend ps) := by
  induction xs generalizing s ps with
  | nil =>
    rw [exchanges,nextEvent]
    rcases begin_cases s with ⟨e,hb⟩ | ⟨_,hb⟩
    · rw [hb]
      exact ⟨hs,by simp⟩
    · rw [hb]
      exact ⟨hs.congr rfl rfl,by simp⟩
  | cons x xs ih =>
    rw [exchanges,nextEvent]
    rcases begin_cases s with ⟨e,hb⟩ | ⟨hf,hb⟩
    · rw [hb]
      exact ⟨hs,by simp⟩
    · rw [hb]
      dsimp only
      have hready : ({ s with delay := none } : Subscription R).Gathers ps := hs.congr rfl rfl
      obtain ⟨hgathers,hfrom⟩ := receive_gathers hready x
      have hfailure := failure_receive ({ s with delay := none } : Subscription R) x
      generalize ({ s with delay := none } : Subscription R).receive x = r at hgathers hfrom hfailure ⊢
      obtain ⟨s',step⟩ := r
      cases step with
      | failed e => exact ⟨hgathers,by simp⟩
      | proceed => exact ⟨(ih hgathers).gathers,(ih hgathers).delivered⟩
      | deliver e =>
        refine ⟨hgathers,?_⟩
        intro rows resync h
        cases h
        rcases hfailure with ⟨e,he⟩ | he
        · cases he
        · exact ⟨he.trans hf,hfrom⟩

private theorem turn_gathered (hs : s.Gathers ps) (ending : ShapeError)
    (xs : List (Except ShapeError ShapeResponse)) (n : Nat) :
    (s.turn ending xs n).Gathered ((s.exchangesIn ending xs (n + 1)).foldl Exchange.extend ps) := by
  induction n generalizing s ps xs with
  | zero =>
    rw [exchangesIn,exchangesIn,List.append_nil]
    exact nextEvent_gathered hs ending xs
  | succ n ih =>
    rw [turn,exchangesIn,List.foldl_append]
    exact ih (nextEvent_gathered hs ending xs).gathers _

/-! ### The shape of an image -/

/-- A new subscription, from the place where an earlier one ended if there is one. -/
def opened (policy : ReconnectPolicy) (projectId : Int64) : Option Position → Subscription R
  | none => create policy projectId
  | some place => resume policy projectId place

private theorem gathers_opened (policy : ReconnectPolicy) (projectId : Int64) (place : Option Position) :
    (opened policy projectId place : Subscription R).Gathers [] := by
  cases place with
  | none =>
    apply gathers_nil (.inl rfl)
    intro image h
    cases h
    rfl
  | some place => exact gathers_nil (.inr rfl) nofun

/-- An image that is delivered consists of its pages, and the place reached has the handle of the last of
them. All of its pages have that handle exactly if each has the handle that it was asked for. -/
theorem image_of_one_shape_iff (policy : ReconnectPolicy) (projectId : Int64) (place : Option Position)
    (ending : ShapeError) (xs : List (Except ShapeError ShapeResponse)) (n : Nat) {rows : List R}
    {resync : Bool}
    (h : ((opened policy projectId place).turn ending xs n).result = .ok (.snapshot rows resync)) :
    let reached := ((opened policy projectId place : Subscription R).turn ending xs n).subscription
    let ps := pages ((opened policy projectId place : Subscription R).exchangesIn ending xs (n + 1))
    ∃ handle, reached.position = some ⟨handle,reached.offset⟩ ∧ rows = (rowsOf ps).values ∧
      (∀ row ∈ rows, ∃ p ∈ ps, p.Carries row) ∧
      ((∀ p ∈ ps, p.batch.handle = handle) ↔ ∀ p ∈ ps, p.Own) := by
  intro reached ps
  have hstart : (opened policy projectId place : Subscription R).Gathers [] :=
    gathers_opened policy projectId place
  obtain ⟨hgathers,hdelivered⟩ := turn_gathered hstart ending xs n
  obtain ⟨hfailure,himage,hne,hrows⟩ := hdelivered h
  have hhandle : reached.handle = some (ps.getLast hne).batch.handle := by
    rcases hgathers.placed with hp | ⟨hp,_⟩
    · rw [hp,List.getLast?_eq_some_getLast hne]
      rfl
    · exact absurd hp hne
  have hlive : reached.phase = .live := by
    rw [phase,hfailure,himage]
    rfl
  refine ⟨(ps.getLast hne).batch.handle,?_,hrows,?_,?_⟩
  · rw [position,if_pos hlive,hhandle]
    rfl
  · intro row hrow
    rw [hrows] at hrow
    exact carried_of_mem hrow
  · have halike : (∀ p ∈ ps, reached.handle = some p.batch.handle) ↔ ∀ p ∈ ps, p.Own := hgathers.alike
    rw [hhandle] at halike
    simpa only [Option.some.injEq,eq_comm] using halike

/-- An image of two pages with a failure between them; the second page has the given handle. -/
def twoPages (second : ShapeHandle) : List (Except ShapeError ShapeResponse) := [
  .ok (.batch ⟨⟨"a"⟩,.at 1 0,[.change (.ofFeature "E1" [])]⟩),
  .error (.transient "reset"),
  .ok (.batch ⟨second,.at 2 0,[.change (.ofFeature "E2" []),.control .upToDate]⟩)]

theorem image_of_one_shape_sameHandle :
    let s : Subscription Entity := opened .default 7 none
    let t := s.turn (.transient "closed") (twoPages ⟨"a"⟩) 1
    t.result = .ok (.snapshot [.inState "E1" .ready,.inState "E2" .ready] false) ∧
      t.subscription.position = some ⟨⟨"a"⟩,.at 2 0⟩ ∧
      ∀ p ∈ pages (s.exchangesIn (.transient "closed") (twoPages ⟨"a"⟩) 2), p.batch.handle = ⟨"a"⟩ := by
  intro s t
  have hresult : t.result = .ok (.snapshot [.inState "E1" .ready,.inState "E2" .ready] false) := by
    decide +kernel
  have hposition : t.subscription.position = some ⟨⟨"a"⟩,.at 2 0⟩ := by decide +kernel
  obtain ⟨handle,hp,_,_,hiff⟩ := image_of_one_shape_iff .default 7 none (.transient "closed")
    (twoPages ⟨"a"⟩) 1 hresult
  obtain rfl : (⟨"a"⟩ : ShapeHandle) = handle :=
    congrArg Position.handle (Option.some.inj (hposition.symm.trans hp))
  have hown : ∀ p ∈ pages (s.exchangesIn (.transient "closed") (twoPages ⟨"a"⟩) 2), p.Own := by
    decide +kernel
  exact ⟨hresult,hposition,hiff.mpr hown⟩

/-- The pages of an image may be of two shapes: its first row was brought by no page of the handle that the
place has. -/
theorem image_of_two_shapes :
    let s : Subscription Entity := opened .default 7 none
    let t := s.turn (.transient "closed") (twoPages ⟨"b"⟩) 1
    t.result = .ok (.snapshot [.inState "E1" .ready,.inState "E2" .ready] false) ∧
      t.subscription.position = some ⟨⟨"b"⟩,.at 2 0⟩ ∧
      ∀ p ∈ pages (s.exchangesIn (.transient "closed") (twoPages ⟨"b"⟩) 2), p.batch.handle = ⟨"b"⟩ →
        ¬ p.Carries (Entity.inState "E1" .ready) := by
  refine ⟨?_,?_,?_⟩ <;> decide +kernel

end Subscription
end FieldReplica
