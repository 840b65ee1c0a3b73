import FieldReplica.Proofs.Closing
import FieldReplica.Proofs.Table
import FieldReplica.Registry.Basic

/-!
# Registrations and the calls that end them

Closing a project takes its view out of the registry at once and closes the collections of the view later, part by
part, and returns when that is done. Other calls may come in between, and among them calls that open the project
again. Every view is registered or was taken out by one closing, and never both. A closing that is over has left
the collections of its views closed, and has not come near any other view.
-/
namespace FieldReplica

open Collection (ClosePart)

namespace Collection

variable {R : Type} [Row R] {c : Collection R} {left : List ClosePart}

private theorem fades_step (hs : c.desk.Solo) (hf : c.feed = .stopped) (h : c.desk.Shut) (o : Occasion R) :
    c.Fades (c.step o) := by
  cases o with
  | rows answer =>
    rw [step_rows_of_ne (by rw [hf]; nofun)]
    exact .refl h
  | batch outcome =>
    rw [step_batch_of_ne (by rw [hf]; nofun)]
    exact .refl h
  | awaken =>
    rcases step_awaken c with he | ⟨⟨since,deadline,hsleep⟩,_⟩
    · rw [he]
      exact .refl h
    · cases hf.symm.trans hsleep
  | desk a ha => exact fades_desk hs h ha
  | close =>
    have hfeed := fades_closePart h .feed
    have hmutations := hfeed.trans (fades_closePart hfeed.shut .mutations)
    have hrows := hmutations.trans (fades_closePart hmutations.shut .rows)
    exact hrows.trans (fades_closePart hrows.shut .status)

private theorem solo_closePart (hs : c.desk.Solo) (p : ClosePart) : (c.closePart p).1.desk.Solo := by
  cases p with
  | mutations => exact Desk.solo_step hs .close
  | feed | rows | status => exact hs

/-- A closing has come so far that these parts are left. -/
abbrev ClosedUpTo (left : List ClosePart) (c : Collection R) : Prop := c.Along (c.feed = .stopped) left

/-- Whatever happens, a closing has not to begin anew. -/
theorem ClosedUpTo.step (h : c.ClosedUpTo left) (hs : c.desk.Solo) (o : Occasion R) : (c.step o).ClosedUpTo left := by
  rcases h.ended_or_all with hf | rfl
  · exact (h.fade fun hshut => fades_step hs hf hshut o).imp fun _ => stopped_step hf o
  · exact along_all _ _

omit [Row R] in
private theorem stopped_closePart (hf : c.feed = .stopped) (p : ClosePart) : (c.closePart p).1.feed = .stopped := by
  cases p with
  | feed => rfl
  | mutations | rows | status => exact hf

theorem ClosedUpTo.closePart (h : c.ClosedUpTo left) (p : ClosePart) : (c.closePart p).1.ClosedUpTo left :=
  (h.fade fun hshut => fades_closePart hshut p).imp fun hf => stopped_closePart hf p

theorem ClosedUpTo.proceed {p : ClosePart} (h : c.ClosedUpTo (p::left)) : (c.closePart p).1.ClosedUpTo left := by
  refine Along.proceed (h.imp fun hf => stopped_closePart hf p) ?_
  rintro rfl
  rfl

end Collection

/-! ### Views -/

inductive ViewOccasion where
  | entities (o : Occasion Entity)
  | taskEvents (o : Occasion TaskEvent)

inductive ViewPart where
  | entities (p : ClosePart)
  | taskEvents (p : ClosePart)

namespace ViewPart

def all : List ViewPart := ClosePart.all.map .entities ++ ClosePart.all.map .taskEvents

def entities? : ViewPart → Option ClosePart
  | .entities p => some p
  | .taskEvents _ => none

def taskEvents? : ViewPart → Option ClosePart
  | .entities _ => none
  | .taskEvents p => some p

end ViewPart

/-- What a view does, in order. -/
def ViewActivity.all (a : ViewActivity) : List (Activity Entity ⊕ Activity TaskEvent) :=
  a.entities.map .inl ++ a.taskEvents.map .inr

namespace ProjectView

variable {v : ProjectView}

def step (v : ProjectView) : ViewOccasion → ProjectView
  | .entities o => { v with entities := v.entities.step o }
  | .taskEvents o => { v with taskEvents := v.taskEvents.step o }

def after (v : ProjectView) (os : List ViewOccasion) : ProjectView := os.foldl step v

def closePart (v : ProjectView) : ViewPart → ProjectView × ViewActivity
  | .entities p =>
    let (entities,acts) := v.entities.closePart p
    ({ v with entities },⟨acts,[]⟩)
  | .taskEvents p =>
    let (taskEvents,acts) := v.taskEvents.closePart p
    ({ v with taskEvents },⟨[],acts⟩)

/-- Both collections are closed. -/
structure IsClosed (v : ProjectView) : Prop where
  entities : v.entities.status = .closed ∧ v.entities.feed = .stopped ∧ v.entities.store.rows = .empty
  taskEvents : v.taskEvents.status = .closed ∧ v.taskEvents.feed = .stopped ∧ v.taskEvents.store.rows = .empty

/-- No mutation of a view has two submissions under way. -/
def Solo (v : ProjectView) : Prop := v.entities.desk.Solo ∧ v.taskEvents.desk.Solo

private theorem projectId_step (v : ProjectView) (o : ViewOccasion) : (v.step o).projectId = v.projectId := by
  cases o <;> rfl

private theorem projectId_closePart (v : ProjectView) (p : ViewPart) : (v.closePart p).1.projectId = v.projectId := by
  cases p <;> rfl

theorem solo_step (h : v.Solo) (o : ViewOccasion) : (v.step o).Solo := by
  cases o with
  | entities o => exact ⟨Collection.solo_step h.1 o,h.2⟩
  | taskEvents o => exact ⟨h.1,Collection.solo_step h.2 o⟩

private theorem solo_closePart (h : v.Solo) (p : ViewPart) : (v.closePart p).1.Solo := by
  cases p with
  | entities p => exact ⟨Collection.solo_closePart h.1 p,h.2⟩
  | taskEvents p => exact ⟨h.1,Collection.solo_closePart h.2 p⟩

private theorem solo_start (project : Int64) (options : CollectionOptions) (resume : Positions) :
    (start project options resume).1.Solo :=
  ⟨Collection.solo_opened project options resume.entities,
    Collection.solo_opened project options resume.taskEvents⟩

/-- A closing of a view has come so far that these parts are left. -/
structure ClosedUpTo (left : List ViewPart) (v : ProjectView) : Prop where
  entities : v.entities.ClosedUpTo (left.filterMap ViewPart.entities?)
  taskEvents : v.taskEvents.ClosedUpTo (left.filterMap ViewPart.taskEvents?)

variable {left : List ViewPart}

private theorem closedUpTo_all (v : ProjectView) : v.ClosedUpTo ViewPart.all :=
  ⟨Collection.along_all _ _,Collection.along_all _ _⟩

theorem ClosedUpTo.step (h : v.ClosedUpTo left) (hs : v.Solo) (o : ViewOccasion) : (v.step o).ClosedUpTo left := by
  cases o with
  | entities o => exact ⟨h.entities.step hs.1 o,h.taskEvents⟩
  | taskEvents o => exact ⟨h.entities,h.taskEvents.step hs.2 o⟩

theorem ClosedUpTo.closePart (h : v.ClosedUpTo left) (p : ViewPart) : (v.closePart p).1.ClosedUpTo left := by
  cases p with
  | entities p => exact ⟨h.entities.closePart p,h.taskEvents⟩
  | taskEvents p => exact ⟨h.entities,h.taskEvents.closePart p⟩

theorem ClosedUpTo.proceed {p : ViewPart} (h : v.ClosedUpTo (p::left)) : (v.closePart p).1.ClosedUpTo left := by
  cases p with
  | entities p => exact ⟨Collection.ClosedUpTo.proceed h.entities,h.taskEvents⟩
  | taskEvents p => exact ⟨h.entities,Collection.ClosedUpTo.proceed h.taskEvents⟩

private theorem ClosedUpTo.isClosed (h : v.ClosedUpTo []) : v.IsClosed where
  entities := ⟨h.entities.status List.not_mem_nil,h.entities.feed List.not_mem_nil,h.entities.rows List.not_mem_nil⟩
  taskEvents :=
    ⟨h.taskEvents.status List.not_mem_nil,h.taskEvents.feed List.not_mem_nil,h.taskEvents.rows List.not_mem_nil⟩

end ProjectView

/-! ### Calls -/

namespace Registry

def happen (r : Registry) (n : Nat) (o : ViewOccasion) : Registry :=
  { r with views := r.views.modify n (·.step o) }

def closePart (r : Registry) (n : Nat) (p : ViewPart) : Registry × ViewActivity :=
  match r.view? n with
  | none => (r,⟨[],[]⟩)
  | some v =>
    let (v,activity) := v.closePart p
    ({ r with views := r.views.set n v },activity)

/-- Views are closed by some parts, one after the other. -/
def closeParts (r : Registry) : List (Nat × ViewPart) → Registry × List (Nat × ViewActivity)
  | [] => (r,[])
  | (n,p)::xs =>
    let (r,activity) := r.closePart n p
    let (r,rest) := r.closeParts xs
    (r,(n,activity)::rest)

end Registry

inductive Return where
  /-- Whether the project was open. -/
  | close (was : Bool)
  | closeAll
deriving DecidableEq

/-- A call that closes: the views that it has taken out of the registry, what it is going to return, and what it has
still to do. -/
structure Closing where
  taken : List Nat
  result : Return
  left : List (Nat × ViewPart)

namespace Closing

/-- The views are closed one after the other. -/
def start (ns : List Nat) (result : Return) : Closing :=
  ⟨ns,result,ns.flatMap fun n => ViewPart.all.map (n,·)⟩

def leftAt (c : Closing) (n : Nat) : List ViewPart := c.left.filterMap fun x => if x.1 = n then some x.2 else none

end Closing

/-- A registry and the calls that were begun to close something. -/
structure BusyRegistry where
  registry : Registry
  closings : List Closing

/-- What may come next: a call begins, a call that closes does the next part of what it has to do, or something
happens to a view. -/
inductive RegistryCall where
  | openAt (project : Int64) (resume : Positions)
  | get (project : Int64)
  | close (project : Int64)
  /-- The views are closed in some order. -/
  | closeAll (rank : Nat → Nat)
  | proceed (k : Nat)
  | happen (n : Nat) (o : ViewOccasion)

inductive RegistryAnswer where
  /-- The number of a view, and its activity if the call has opened it. -/
  | opened (n : Nat) (activity : Option ViewActivity)
  | got (n : Option Nat)
  /-- A call has begun to close something, and returns at once if there is nothing to close. -/
  | begun (k : Nat) (result : Option Return)
  /-- A call has done a part at a view, and returns if it was the last. -/
  | went (k n : Nat) (activity : ViewActivity) (result : Option Return)
  | none

namespace RegistryAnswer

/-- The call that closes and returns, and what it returns. -/
def returned? : RegistryAnswer → Option (Nat × Return)
  | .begun k result | .went k _ _ result => result.map (k,·)
  | .opened _ _ | .got _ | .none => Option.none

def activity? : RegistryAnswer → Option (Nat × ViewActivity)
  | .went _ n activity _ => some (n,activity)
  | .opened _ _ | .got _ | .begun _ _ | .none => Option.none

end RegistryAnswer

namespace RegistryCall

def at? (n : Nat) : RegistryCall → Option ViewOccasion
  | .happen m o => if m = n then some o else none
  | _ => none

/-- The call of a number goes on that closes something. -/
def proceeds (k : Nat) : RegistryCall → Bool
  | .proceed j => j = k
  | _ => false

end RegistryCall

namespace BusyRegistry

def create (options : CollectionOptions) : BusyRegistry := ⟨.create options,[]⟩

/-- Begin to close views that the registry has no more. -/
def begin (b : BusyRegistry) (r : Registry) (ns : List Nat) (result : Return) : BusyRegistry × RegistryAnswer :=
  (⟨r,b.closings ++ [.start ns result]⟩,.begun b.closings.length (if ns = [] then some result else none))

/-- A call does the next of the things that it has to do. -/
def proceed (b : BusyRegistry) (k : Nat) : BusyRegistry × RegistryAnswer :=
  match b.closings[k]? with
  | some ⟨taken,result,(n,p)::left⟩ =>
    let (r,activity) := b.registry.closePart n p
    (⟨r,b.closings.set k ⟨taken,result,left⟩⟩,.went k n activity (if left = [] then some result else none))
  | _ => (b,.none)

def order (b : BusyRegistry) (rank : Nat → Nat) : List Nat :=
  b.registry.registered.values.mergeSort fun m n => rank m ≤ rank n

def call (b : BusyRegistry) : RegistryCall → BusyRegistry × RegistryAnswer
  | .openAt project resume =>
    let (r,n,activity) := b.registry.openAt project resume
    ({ b with registry := r },.opened n activity)
  | .get project => (b,.got (b.registry.number? project))
  | .close project =>
    let (r,n) := b.registry.unregister project
    b.begin r n.toList (.close n.isSome)
  | .closeAll rank => b.begin b.registry.unregisterAll.1 (b.order rank) .closeAll
  | .proceed k => b.proceed k
  | .happen n o => ({ b with registry := b.registry.happen n o },.none)

def after (b : BusyRegistry) (cs : List RegistryCall) : BusyRegistry := cs.foldl (fun b c => (b.call c).1) b

def answers (b : BusyRegistry) : List RegistryCall → List RegistryAnswer
  | [] => []
  | c::cs => (b.call c).2::(b.call c).1.answers cs

/-- The calls that return in the course of others, and what they return. -/
def returned (b : BusyRegistry) (cs : List RegistryCall) : List (Nat × Return) :=
  (b.answers cs).filterMap (·.returned?)

/-- What the views do that are closed in the course of some calls. -/
def activities (b : BusyRegistry) (cs : List RegistryCall) : List (Nat × ViewActivity) :=
  (b.answers cs).filterMap (·.activity?)

def taken (b : BusyRegistry) : List Nat := b.closings.flatMap (·.taken)

variable {b : BusyRegistry}

theorem after_snoc (b : BusyRegistry) (cs : List RegistryCall) (c : RegistryCall) :
    b.after (cs ++ [c]) = ((b.after cs).call c).1 := List.foldl_append

theorem after_append (b : BusyRegistry) (cs ds : List RegistryCall) :
    b.after (cs ++ ds) = (b.after cs).after ds := List.foldl_append

theorem after_cons (b : BusyRegistry) (c : RegistryCall) (cs : List RegistryCall) :
    b.after (c::cs) = (b.call c).1.after cs := rfl

private theorem returned_cons (b : BusyRegistry) (c : RegistryCall) (cs : List RegistryCall) :
    b.returned (c::cs) = (b.call c).2.returned?.toList ++ (b.call c).1.returned cs := by
  rw [returned,answers,List.filterMap_cons]
  cases (b.call c).2.returned? <;> rfl

private theorem activities_cons (b : BusyRegistry) (c : RegistryCall) (cs : List RegistryCall) :
    b.activities (c::cs) = (b.call c).2.activity?.toList ++ (b.call c).1.activities cs := by
  rw [activities,answers,List.filterMap_cons]
  cases (b.call c).2.activity? <;> rfl

end BusyRegistry

namespace Registry

private theorem fst_closePart (r : Registry) (n : Nat) (p : ViewPart) :
    (r.closePart n p).1 = { r with views := r.views.modify n fun v => (v.closePart p).1 } := by
  rw [closePart,List.modify_eq_set_getElem?,view?]
  cases r.views[n]? <;> rfl

private theorem view?_modify (r : Registry) (n m : Nat) (f : ProjectView → ProjectView) :
    ({ r with views := r.views.modify n f } : Registry).view? m =
      (r.view? m).map fun v => if n = m then f v else v := by
  rw [view?,List.getElem?_modify]
  rfl

end Registry

namespace BusyRegistry

variable {b : BusyRegistry}

/-! ### What every call keeps -/

/-- What holds between the registry and the calls that close something. -/
structure Sound (b : BusyRegistry) : Prop where
  /-- Every view is registered or taken out, and that once. -/
  once : (b.registry.registered.values ++ b.taken).Perm (List.range b.registry.views.length)
  own : ∀ {project n}, b.registry.number? project = some n →
    ∃ v, b.registry.view? n = some v ∧ v.projectId = project
  solo : ∀ {n v}, b.registry.view? n = some v → v.Solo
  within : ∀ c ∈ b.closings, ∀ x ∈ c.left, x.1 ∈ c.taken
  /-- Who returns that a project was open has taken out a view. -/
  counted : ∀ c ∈ b.closings, ∀ was, c.result = .close was → c.taken.length = was.toNat
  along : ∀ c ∈ b.closings, ∀ n ∈ c.taken, ∀ {v}, b.registry.view? n = some v → v.ClosedUpTo (c.leftAt n)

private theorem Sound.lt_of_taken (h : b.Sound) {c : Closing} (hc : c ∈ b.closings) {n : Nat} (hn : n ∈ c.taken) :
    n < b.registry.views.length := by
  have hm : n ∈ b.registry.registered.values ++ b.taken :=
    List.mem_append_right _ (List.mem_flatMap.mpr ⟨c,hc,hn⟩)
  exact List.mem_range.mp (h.once.mem_iff.mp hm)

private theorem Sound.nodup_values (h : b.Sound) : b.registry.registered.values.Nodup :=
  (List.nodup_append.mp (h.once.nodup_iff.mpr List.nodup_range)).1

theorem sound_create (options : CollectionOptions) : (create options).Sound where
  once := List.Perm.refl _
  own := nofun
  solo := nofun
  within := nofun
  counted := nofun
  along := nofun

private theorem values_insert {t : Table Int64 Nat} {project : Int64} (h : t.find? project = none) (n : Nat) :
    (t.insert project n).values.Perm (n::t.values) := (Table.perm_insert h n).map _

private theorem values_erase (t : Table Int64 Nat) (project : Int64) :
    t.values.Perm ((t.find? project).toList ++ (t.erase project).values) := by
  cases hn : t.find? project with
  | none =>
    rw [Table.erase_of_find?_none hn]
    exact List.Perm.refl _
  | some n => exact (Table.perm_erase hn).map _

/-- A new view is registered and known to nobody yet. -/
theorem sound_opened (h : b.Sound) {project : Int64} (hp : b.registry.number? project = none)
    {v : ProjectView} (hv : v.projectId = project) (hs : v.Solo) :
    (⟨{ b.registry with
        registered := b.registry.registered.insert project b.registry.views.length
        views := b.registry.views ++ [v] },b.closings⟩ : BusyRegistry).Sound := by
  have hview : ∀ {n w}, (b.registry.views ++ [v])[n]? = some w →
      b.registry.view? n = some w ∨ w = v := by
    intro n w hw
    rw [List.getElem?_append] at hw
    split at hw
    · exact .inl hw
    · exact .inr (List.mem_singleton.mp (List.mem_of_getElem? hw))
  constructor
  case once =>
    rw [List.length_append,List.length_singleton,List.range_succ]
    have hvalues := (values_insert hp b.registry.views.length).append_right b.taken
    exact (hvalues.trans (h.once.cons _)).trans (List.perm_append_singleton _ _).symm
  case own =>
    intro q n hq
    rw [Registry.number?,Table.find?_insert_of] at hq
    split at hq
    · next hqp =>
      cases hq
      exact ⟨v,by simp [Registry.view?],hv.trans hqp.symm⟩
    · obtain ⟨w,hw,hwq⟩ := h.own hq
      refine ⟨w,?_,hwq⟩
      exact (List.getElem?_append_left (List.getElem?_eq_some_iff.mp hw).1).trans hw
  case solo =>
    intro n w hw
    rcases hview hw with hw | rfl
    · exact h.solo hw
    · exact hs
  case within => exact h.within
  case counted => exact h.counted
  case along =>
    intro c hc n hn w hw
    have hlt := h.lt_of_taken hc hn
    exact h.along c hc n hn ((List.getElem?_append_left hlt).symm.trans hw)

private theorem leftAt_flatMap {ns : List Nat} (hns : ns.Nodup) {n : Nat} (hn : n ∈ ns) (ps : List ViewPart) :
    (ns.flatMap fun m => ps.map (m,·)).filterMap (fun x => if x.1 = n then some x.2 else none) = ps := by
  have hone : ∀ m, (ps.map (m,·)).filterMap (fun x => if x.1 = n then some x.2 else none) =
      if m = n then ps else [] := by
    intro m
    rw [List.filterMap_map]
    by_cases hm : m = n
    · simp [hm]
    · simp [hm]
  have hnone : ∀ {ms : List Nat}, n ∉ ms →
      (ms.flatMap fun m => ps.map (m,·)).filterMap (fun x => if x.1 = n then some x.2 else none) = [] := by
    intro ms hms
    rw [List.filterMap_eq_nil_iff]
    intro x hx
    obtain ⟨m,hm,hx⟩ := List.mem_flatMap.mp hx
    obtain ⟨p,_,rfl⟩ := List.mem_map.mp hx
    exact if_neg fun (he : m = n) => hms (he ▸ hm)
  obtain ⟨us,ws,rfl⟩ := List.append_of_mem hn
  rw [List.nodup_append] at hns
  obtain ⟨_,hws,hus⟩ := hns
  have hbefore : n ∉ us := fun hm => hus n hm n List.mem_cons_self rfl
  rw [List.flatMap_append,List.flatMap_cons,List.filterMap_append,List.filterMap_append,hone,hnone hbefore,
    hnone (List.nodup_cons.mp hws).1,if_pos rfl,List.nil_append,List.append_nil]

private theorem sound_begin (h : b.Sound) {t : Table Int64 Nat} {ns : List Nat} {result : Return}
    (hresult : ∀ was, result = .close was → ns.length = was.toNat)
    (ht : ∀ {project n}, t.find? project = some n → b.registry.number? project = some n)
    (hperm : b.registry.registered.values.Perm (ns ++ t.values)) :
    (b.begin { b.registry with registered := t } ns result).1.Sound := by
  have hns : ns.Nodup := (List.nodup_append.mp (hperm.nodup_iff.mp h.nodup_values)).1
  have hmem : ∀ c ∈ b.closings ++ [.start ns result], c ∈ b.closings ∨ c = .start ns result := by
    intro c hc
    simpa using hc
  constructor
  case once =>
    have htaken : (b.begin { b.registry with registered := t } ns result).1.taken = b.taken ++ ns := by
      rw [taken,begin,List.flatMap_append,List.flatMap_singleton]
      rfl
    rw [htaken]
    refine List.Perm.trans ?_ h.once
    have hswap : (t.values ++ (b.taken ++ ns)).Perm ((ns ++ t.values) ++ b.taken) := by
      rw [← List.append_assoc,List.append_assoc ns]
      exact List.perm_append_comm
    exact hswap.trans (hperm.symm.append_right _)
  case own => exact fun hq => h.own (ht hq)
  case solo => exact h.solo
  case within =>
    intro c hc x hx
    rcases hmem c hc with hc | rfl
    · exact h.within c hc x hx
    · obtain ⟨n,hn,hx⟩ := List.mem_flatMap.mp hx
      obtain ⟨p,_,rfl⟩ := List.mem_map.mp hx
      exact hn
  case counted =>
    intro c hc was hwas
    rcases hmem c hc with hc | rfl
    · exact h.counted c hc was hwas
    · exact hresult was hwas
  case along =>
    intro c hc n hn v hv
    rcases hmem c hc with hc | rfl
    · exact h.along c hc n hn hv
    · rw [Closing.leftAt,Closing.start,leftAt_flatMap hns hn]
      exact v.closedUpTo_all

private theorem sound_modify (h : b.Sound) (n : Nat) {f : ProjectView → ProjectView} {cs : List Closing}
    (hid : ∀ v, (f v).projectId = v.projectId) (hsolo : ∀ {v}, v.Solo → (f v).Solo)
    (htaken : cs.map (·.taken) = b.closings.map (·.taken))
    (hcounted : ∀ c ∈ cs, ∀ was, c.result = .close was → c.taken.length = was.toNat)
    (hwithin : ∀ c ∈ cs, ∀ x ∈ c.left, x.1 ∈ c.taken)
    (halong : ∀ c ∈ cs, ∀ m ∈ c.taken, ∀ {v}, b.registry.view? m = some v →
      (if n = m then f v else v).ClosedUpTo (c.leftAt m)) :
    (⟨{ b.registry with views := b.registry.views.modify n f },cs⟩ : BusyRegistry).Sound := by
  have hview : ∀ {m w}, ({ b.registry with views := b.registry.views.modify n f } : Registry).view? m = some w →
      ∃ v, b.registry.view? m = some v ∧ w = if n = m then f v else v := by
    intro m w hw
    rw [Registry.view?_modify,Option.map_eq_some_iff] at hw
    obtain ⟨v,hv,rfl⟩ := hw
    exact ⟨v,hv,rfl⟩
  constructor
  case once =>
    have hsame : (⟨{ b.registry with views := b.registry.views.modify n f },cs⟩ : BusyRegistry).taken = b.taken := by
      rw [taken,taken,List.flatMap_def,List.flatMap_def,htaken]
    rw [hsame]
    dsimp only
    rw [List.length_modify]
    exact h.once
  case own =>
    intro project m hm
    obtain ⟨v,hv,hp⟩ := h.own hm
    refine ⟨_,(Registry.view?_modify _ _ _ _).trans (congrArg _ hv),?_⟩
    split
    · exact (hid v).trans hp
    · exact hp
  case solo =>
    intro m w hw
    obtain ⟨v,hv,rfl⟩ := hview hw
    split
    · exact hsolo (h.solo hv)
    · exact h.solo hv
  case within => exact hwithin
  case counted => exact hcounted
  case along =>
    intro c hc m hm w hw
    obtain ⟨v,hv,rfl⟩ := hview hw
    exact halong c hc m hm hv

private theorem sound_happen (h : b.Sound) (n : Nat) (o : ViewOccasion) :
    (⟨b.registry.happen n o,b.closings⟩ : BusyRegistry).Sound := by
  refine sound_modify h n (·.projectId_step o) (fun hs => ProjectView.solo_step hs o) rfl h.counted h.within ?_
  intro c hc m hm v hv
  have halong := h.along c hc m hm hv
  split
  · exact halong.step (h.solo hv) o
  · exact halong

private theorem proceed_cases (b : BusyRegistry) (k : Nat) : b.proceed k = (b,.none) ∨ ∃ taken result n p left,
    b.closings[k]? = some ⟨taken,result,(n,p)::left⟩ ∧
    b.proceed k = (⟨(b.registry.closePart n p).1,b.closings.set k ⟨taken,result,left⟩⟩,
      .went k n (b.registry.closePart n p).2 (if left = [] then some result else none)) := by
  rw [proceed]
  split
  · next taken result n p left hc => exact .inr ⟨taken,result,n,p,left,hc,rfl⟩
  · exact .inl rfl

private theorem map_taken_set {cs : List Closing} {k : Nat} {taken : List Nat} {result : Return}
    {left : List (Nat × ViewPart)} (hc : cs[k]? = some ⟨taken,result,left⟩) (left' : List (Nat × ViewPart)) :
    (cs.set k ⟨taken,result,left'⟩).map (·.taken) = cs.map (·.taken) := by
  obtain ⟨hk,hget⟩ := List.getElem?_eq_some_iff.mp hc
  have hk' : k < (cs.map (·.taken)).length := by rwa [List.length_map]
  have hsame := List.set_getElem_self hk'
  rw [List.getElem_map,hget] at hsame
  rw [List.map_set]
  exact hsame

private theorem sound_proceed (h : b.Sound) (k : Nat) : (b.proceed k).1.Sound := by
  rcases proceed_cases b k with hb | ⟨taken,result,n,p,left,hc,hb⟩
  · rw [hb]
    exact h
  · have hfirst := List.mem_of_getElem? hc
    rw [hb,Registry.fst_closePart]
    refine sound_modify h n (·.projectId_closePart p) (fun hs => ProjectView.solo_closePart hs p)
      (map_taken_set hc left) ?_ ?_ ?_
    · intro c' hc' was hwas
      rcases List.mem_or_eq_of_mem_set hc' with hc' | rfl
      · exact h.counted c' hc' was hwas
      · exact h.counted _ hfirst was hwas
    · intro c' hc' x hx
      rcases List.mem_or_eq_of_mem_set hc' with hc' | rfl
      · exact h.within c' hc' x hx
      · exact h.within _ hfirst x (List.mem_cons_of_mem _ hx)
    · intro c' hc' m hm v hv
      rcases List.mem_or_eq_of_mem_set hc' with hc' | rfl
      · have halong := h.along c' hc' m hm hv
        split
        · exact halong.closePart p
        · exact halong
      · have halong := h.along _ hfirst m hm hv
        rw [Closing.leftAt,List.filterMap_cons] at halong
        by_cases hnm : n = m
        · rw [if_pos hnm]
          rw [if_pos hnm] at halong
          exact halong.proceed
        · rw [if_neg hnm]
          rw [if_neg hnm] at halong
          exact halong

private theorem sound_call (h : b.Sound) (c : RegistryCall) : (b.call c).1.Sound := by
  cases c with
  | openAt project resume =>
    rw [call,Registry.openAt]
    cases hp : b.registry.number? project with
    | some n => exact h
    | none => exact sound_opened h hp rfl (ProjectView.solo_start project _ resume)
  | get project => exact h
  | close project =>
    refine sound_begin h ?_ ?_ (values_erase _ project)
    · intro was hwas
      cases hwas
      cases b.registry.number? project <;> rfl
    · intro q m hq
      rw [Table.find?_erase_of] at hq
      split at hq
      · cases hq
      · exact hq
  | closeAll rank =>
    refine sound_begin h nofun nofun ?_
    rw [show (Table.empty : Table Int64 Nat).values = [] from rfl,List.append_nil]
    exact (List.mergeSort_perm _ _).symm
  | proceed k => exact sound_proceed h k
  | happen n o => exact sound_happen h n o

theorem sound_after (h : b.Sound) (cs : List RegistryCall) : (b.after cs).Sound := by
  induction cs using List.reverseRecOn with
  | nil => exact h
  | append_singleton cs c ih =>
    rw [after_snoc]
    exact sound_call ih c

/-! ### Which projects are open -/

def opens (project : Int64) (was : Bool) : RegistryCall → Bool
  | .openAt q _ => q = project || was
  | .close q => q ≠ project && was
  | .closeAll _ => false
  | .get _ | .proceed _ | .happen _ _ => was

private theorem registered_proceed (b : BusyRegistry) (k : Nat) :
    (b.proceed k).1.registry.registered = b.registry.registered := by
  rcases proceed_cases b k with hb | ⟨taken,result,n,p,left,_,hb⟩
  · rw [hb]
  · rw [hb,Registry.fst_closePart]

/-- A registration lasts until its project is closed. -/
theorem number?_call (b : BusyRegistry) (c : RegistryCall) {project : Int64} {n : Nat}
    (hn : b.registry.number? project = some n) :
    (b.call c).1.registry.number? project = if opens project true c then some n else none := by
  have hfind : b.registry.registered.find? project = some n := hn
  cases c with
  | openAt q resume =>
    rw [call,Registry.openAt,opens]
    cases hq : b.registry.number? q with
    | some m => simpa using hn
    | none =>
      have hne : project ≠ q := by
        rintro rfl
        cases hn.symm.trans hq
      simp [Registry.number?,Table.find?_insert_of,hne,hfind]
  | get q => exact hn
  | close q =>
    change (b.registry.registered.erase q).find? project = _
    rw [Table.find?_erase_of,opens]
    by_cases hp : q = project
    · simp [hp]
    · simp [hp,Ne.symm hp,hfind]
  | closeAll rank => rfl
  | proceed k =>
    rw [call,Registry.number?,registered_proceed]
    exact hfind
  | happen m o => exact hn

private theorem isOpen_call (b : BusyRegistry) (c : RegistryCall) (project : Int64) :
    (b.call c).1.registry.isOpen project = opens project (b.registry.isOpen project) c := by
  cases c with
  | openAt q resume =>
    rw [call,Registry.openAt,opens]
    cases hq : b.registry.number? q with
    | some n =>
      by_cases hp : q = project
      · subst hp
        have hfind : b.registry.registered.find? q = some n := hq
        simp [Registry.isOpen,Table.contains_eq,hfind]
      · simp [hp]
    | none =>
      simp only [Registry.isOpen,Table.contains_eq,Table.find?_insert_of]
      by_cases hp : q = project
      · simp [hp]
      · simp [hp,Ne.symm hp]
  | get q => rfl
  | close q =>
    change (b.registry.registered.erase q).contains project = _
    rw [Table.contains_eq,Table.find?_erase_of,opens]
    by_cases hp : q = project
    · simp [hp]
    · simp [hp,Ne.symm hp,Registry.isOpen,Table.contains_eq]
  | closeAll rank => rfl
  | proceed k =>
    rw [call,Registry.isOpen,registered_proceed]
    rfl
  | happen n o => rfl

private theorem isOpen_after (b : BusyRegistry) (cs : List RegistryCall) (project : Int64) :
    (b.after cs).registry.isOpen project = cs.foldl (opens project) (b.registry.isOpen project) := by
  induction cs generalizing b with
  | nil => rfl
  | cons c cs ih =>
    rw [List.foldl_cons,← isOpen_call]
    exact ih (b.call c).1

private theorem mem_openProjects {r : Registry} {project : Int64} :
    project ∈ r.openProjects ↔ ∃ n, r.number? project = some n := by
  rw [Registry.openProjects,Table.mem_keys,Option.isSome_iff_exists]
  rfl

/-! ### Views that stay registered -/

private theorem taken_call (b : BusyRegistry) (c : RegistryCall) : ∃ ns, (b.call c).1.taken = b.taken ++ ns := by
  cases c with
  | openAt q resume =>
    rw [call,Registry.openAt]
    cases b.registry.number? q with
    | none => exact ⟨[],(List.append_nil _).symm⟩
    | some n => exact ⟨[],(List.append_nil _).symm⟩
  | get q => exact ⟨[],(List.append_nil _).symm⟩
  | close q => exact ⟨_,List.flatMap_append⟩
  | closeAll rank => exact ⟨_,List.flatMap_append⟩
  | proceed k =>
    refine ⟨[],?_⟩
    rw [List.append_nil,call]
    rcases proceed_cases b k with hb | ⟨taken,result,n,p,left,hc,hb⟩
    · rw [hb]
    · rw [hb,BusyRegistry.taken,BusyRegistry.taken,List.flatMap_def,List.flatMap_def]
      exact congrArg List.flatten (map_taken_set hc left)
  | happen n o => exact ⟨[],(List.append_nil _).symm⟩

/-- A view changes only by what somebody does with it, unless a call that has taken it out goes on. -/
theorem view?_call (h : b.Sound) (c : RegistryCall) {n : Nat} {v : ProjectView}
    (hv : b.registry.view? n = some v) :
    (b.call c).1.registry.view? n = some (v.after (c.at? n).toList) ∨
      ∃ k closing, c = .proceed k ∧ b.closings[k]? = some closing ∧ n ∈ closing.taken := by
  cases c with
  | openAt q resume =>
    left
    rw [call,Registry.openAt]
    cases b.registry.number? q with
    | some m => exact hv
    | none => exact (List.getElem?_append_left (List.getElem?_eq_some_iff.mp hv).1).trans hv
  | get q | close q | closeAll rank => exact .inl hv
  | proceed k =>
    rcases proceed_cases b k with hb | ⟨taken,result,m,p,left,hc,hb⟩
    · left
      rw [call,hb]
      exact hv
    · have hm : m ∈ taken := h.within _ (List.mem_of_getElem? hc) _ List.mem_cons_self
      by_cases hmn : m = n
      · exact .inr ⟨k,_,rfl,hc,hmn ▸ hm⟩
      · left
        rw [call,hb,Registry.fst_closePart,Registry.view?_modify,hv]
        simp [hmn,RegistryCall.at?,ProjectView.after]
  | happen m o =>
    left
    rw [call,Registry.happen,Registry.view?_modify,hv,RegistryCall.at?]
    by_cases hm : m = n
    · simp [hm,ProjectView.after]
    · simp [hm,ProjectView.after]

private theorem view?_after (h : b.Sound) (cs : List RegistryCall) {n : Nat} {v : ProjectView}
    (hn : n ∉ (b.after cs).taken) (hv : b.registry.view? n = some v) :
    (b.after cs).registry.view? n = some (v.after (cs.filterMap (·.at? n))) := by
  induction cs using List.reverseRecOn with
  | nil => exact hv
  | append_singleton cs c ih =>
    rw [after_snoc] at hn ⊢
    obtain ⟨ns,hns⟩ := taken_call (b.after cs) c
    have hbefore : n ∉ (b.after cs).taken := fun hm => hn (hns ▸ List.mem_append_left _ hm)
    have hone : [c].filterMap (·.at? n) = (c.at? n).toList := by
      cases hc : c.at? n with
      | none => exact List.filterMap_cons_none hc
      | some o => exact List.filterMap_cons_some hc
    rcases view?_call (sound_after h cs) c (ih hbefore) with hcall | ⟨k,closing,_,hk,hm⟩
    · rw [hcall,List.filterMap_append,hone,ProjectView.after,ProjectView.after,ProjectView.after,
        List.foldl_append]
    · exact absurd (List.mem_flatMap.mpr ⟨closing,List.mem_of_getElem? hk,hm⟩) hbefore

/-! ### What a call returns -/

private theorem closing_call {k : Nat} {taken : List Nat} {result : Return} {left : List (Nat × ViewPart)}
    (hk : b.closings[k]? = some ⟨taken,result,left⟩) (c : RegistryCall) :
    (b.call c).1.closings[k]? = some ⟨taken,result,if c.proceeds k then left.drop 1 else left⟩ ∧
    (b.call c).2.returned?.toList.filter (·.1 = k) = if c.proceeds k ∧ left.length = 1 then [(k,result)] else [] := by
  have hlt := (List.getElem?_eq_some_iff.mp hk).1
  have hbegin : ∀ r ns x, (b.begin r ns x).1.closings[k]? = some ⟨taken,result,left⟩ ∧
      (b.begin r ns x).2.returned?.toList.filter (·.1 = k) = [] := by
    intro r ns x
    refine ⟨(List.getElem?_append_left hlt).trans hk,?_⟩
    rw [List.filter_eq_nil_iff]
    intro y hy
    rw [begin,RegistryAnswer.returned?,Option.mem_toList,Option.map_eq_some_iff] at hy
    obtain ⟨_,_,rfl⟩ := hy
    simpa using Nat.ne_of_gt hlt
  cases c with
  | openAt q resume => exact ⟨hk,rfl⟩
  | get q => exact ⟨hk,rfl⟩
  | close q => exact hbegin _ _ _
  | closeAll rank => exact hbegin _ _ _
  | happen n o => exact ⟨hk,rfl⟩
  | proceed j =>
    rw [call,RegistryCall.proceeds]
    rcases proceed_cases b j with hb | ⟨taken',result',n,p,left',hj,hb⟩
    · rw [hb]
      by_cases hjk : j = k
      · subst hjk
        cases left with
        | nil => exact ⟨by simpa using hk,by simp [RegistryAnswer.returned?]⟩
        | cons x left =>
          rw [proceed,hk] at hb
          cases congrArg Prod.snd hb
      · exact ⟨by simpa [hjk] using hk,by simp [hjk,RegistryAnswer.returned?]⟩
    · rw [hb,RegistryAnswer.returned?]
      by_cases hjk : j = k
      · subst hjk
        cases hk.symm.trans hj
        refine ⟨by simp [hlt],?_⟩
        cases left' <;> simp
      · refine ⟨?_,?_⟩
        · simpa [hjk] using hk
        · cases left' <;> simp [hjk]

/-- A call has less to do each time that it goes on. It returns with the last thing that it does, and only then. -/
theorem closing_after {k : Nat} {taken : List Nat} {result : Return} {left : List (Nat × ViewPart)}
    (hk : b.closings[k]? = some ⟨taken,result,left⟩) (ds : List RegistryCall) :
    (b.after ds).closings[k]? = some ⟨taken,result,left.drop (ds.countP (·.proceeds k))⟩ ∧
    (b.returned ds).filter (·.1 = k) =
      if 0 < left.length ∧ left.length ≤ ds.countP (·.proceeds k) then [(k,result)] else [] := by
  induction ds generalizing b left with
  | nil => exact ⟨hk,by cases left <;> rfl⟩
  | cons d ds ih =>
    obtain ⟨hk',hone⟩ := closing_call hk d
    obtain ⟨hafter,hrest⟩ := ih hk'
    rw [after_cons,returned_cons,List.filter_append,hafter,hone,hrest,List.countP_cons]
    cases d.proceeds k with
    | false => simp
    | true =>
      refine ⟨by simp [Nat.add_comm],?_⟩
      match left with
      | [] => rfl
      | [x] => simp
      | x::y::left => simp

/-- What becomes of a call that closes some views. -/
structure Returns (b : BusyRegistry) (c : RegistryCall) (ns : List Nat) (result : Return)
    (ds : List RegistryCall) : Prop where
  /-- It returns once, when it has gone on as often as its views have parts, -/
  once : (b.returned (c::ds)).filter (·.1 = b.closings.length) =
    if ns.length * ViewPart.all.length ≤ ds.countP (·.proceeds b.closings.length) then
      [(b.closings.length,result)] else []
  /-- and then its views are closed. -/
  closed : (b.closings.length,result) ∈ b.returned (c::ds) →
    ∀ n ∈ ns, ∃ v, (b.after (c::ds)).registry.view? n = some v ∧ v.IsClosed

private theorem length_start (ns : List Nat) (result : Return) :
    (Closing.start ns result).left.length = ns.length * ViewPart.all.length := by
  simp [Closing.start,List.length_flatMap]

private theorem Sound.isClosed (h : b.Sound) {c : Closing} (hc : c ∈ b.closings) (hleft : c.left = []) {n : Nat}
    (hn : n ∈ c.taken) : ∃ v, b.registry.view? n = some v ∧ v.IsClosed := by
  have hv : b.registry.view? n = some _ := List.getElem?_eq_getElem (h.lt_of_taken hc hn)
  have halong := h.along c hc n hn hv
  rw [Closing.leftAt,hleft] at halong
  exact ⟨_,hv,halong.isClosed⟩

private theorem returns_of_begin (h : b.Sound) {c : RegistryCall} {r : Registry} {ns : List Nat} {result : Return}
    (hc : b.call c = b.begin r ns result) (ds : List RegistryCall) : b.Returns c ns result ds := by
  have hk : (b.call c).1.closings[b.closings.length]? = some ⟨ns,result,(Closing.start ns result).left⟩ := by
    rw [hc,begin]
    simp [Closing.start]
  obtain ⟨hafter,hrest⟩ := closing_after hk ds
  have hlength := length_start ns result
  have honce : (b.returned (c::ds)).filter (·.1 = b.closings.length) =
      if ns.length * ViewPart.all.length ≤ ds.countP (·.proceeds b.closings.length) then
        [(b.closings.length,result)] else [] := by
    rw [returned_cons,List.filter_append,hrest,hlength,hc,begin,RegistryAnswer.returned?]
    cases ns with
    | nil => simp
    | cons n ns => simp [ViewPart.all,ClosePart.all]
  refine ⟨honce,?_⟩
  intro hm n hn
  have hm' : (b.closings.length,result) ∈ (b.returned (c::ds)).filter (·.1 = b.closings.length) :=
    List.mem_filter.mpr ⟨hm,decide_eq_true rfl⟩
  rw [honce] at hm'
  split at hm'
  · next hle =>
    have hdrop : (Closing.start ns result).left.drop (ds.countP (·.proceeds b.closings.length)) = [] :=
      List.drop_eq_nil_of_le (hlength ▸ hle)
    exact (sound_after h (c::ds)).isClosed (List.mem_of_getElem? hafter) hdrop hn
  · cases hm'

end BusyRegistry

/-! ### Without interruption -/

/-- What some views do, in order. -/
def deeds (xs : List (Nat × ViewActivity)) : List (Nat × (Activity Entity ⊕ Activity TaskEvent)) :=
  xs.flatMap fun x => x.2.all.map (x.1,·)

def ProjectView.closeParts (v : ProjectView) : List ViewPart → ProjectView × List ViewActivity
  | [] => (v,[])
  | p::ps =>
    let (v,activity) := v.closePart p
    let (v,rest) := v.closeParts ps
    (v,activity::rest)

theorem ProjectView.closeParts_all (v : ProjectView) : (v.closeParts ViewPart.all).1 = v.close.1 ∧
    (v.closeParts ViewPart.all).2.flatMap ViewActivity.all = v.close.2.all := by
  refine ⟨rfl,?_⟩
  simp [ViewPart.all,ClosePart.all,closeParts,closePart,close,Collection.close,Collection.closePart,
    Collection.withDesk,ViewActivity.all]

namespace Registry

private theorem closeParts_append (r : Registry) (xs ys : List (Nat × ViewPart)) : r.closeParts (xs ++ ys) =
    (((r.closeParts xs).1.closeParts ys).1,(r.closeParts xs).2 ++ ((r.closeParts xs).1.closeParts ys).2) := by
  induction xs generalizing r with
  | nil => rfl
  | cons x xs ih => simp [closeParts,ih]

private theorem closeParts_of_none {r : Registry} {n : Nat} (hv : r.view? n = none) (ps : List ViewPart) :
    r.closeParts (ps.map (n,·)) = (r,ps.map fun _ => (n,⟨[],[]⟩)) := by
  induction ps with
  | nil => rfl
  | cons p ps ih => simp [closeParts,closePart,hv,ih]

private theorem closeParts_of_some {r : Registry} {n : Nat} {v : ProjectView} (hv : r.view? n = some v)
    (ps : List ViewPart) : r.closeParts (ps.map (n,·)) =
      ({ r with views := r.views.set n (v.closeParts ps).1 },(v.closeParts ps).2.map (n,·)) := by
  have hlt : n < r.views.length := (List.getElem?_eq_some_iff.mp hv).1
  induction ps generalizing r v with
  | nil =>
    have hsame : r.views.set n v = r.views := by
      rw [← (List.getElem?_eq_some_iff.mp hv).2]
      exact List.set_getElem_self hlt
    simp [closeParts,ProjectView.closeParts,hsame]
  | cons p ps ih =>
    have hv' : (r.closePart n p).1.view? n = some (v.closePart p).1 := by
      rw [closePart,hv]
      exact List.getElem?_set_self hlt
    have hrest := ih hv' (List.getElem?_eq_some_iff.mp hv').1
    rw [List.map_cons,closeParts]
    dsimp only
    rw [hrest,closePart,hv]
    simp [ProjectView.closeParts]

private theorem closeParts_view (r : Registry) (n : Nat) :
    (r.closeParts (ViewPart.all.map (n,·))).1 = (r.shut n).1 ∧
    deeds (r.closeParts (ViewPart.all.map (n,·))).2 = deeds [(n,(r.shut n).2)] := by
  rw [shut]
  cases hv : r.view? n with
  | none =>
    rw [closeParts_of_none hv]
    exact ⟨rfl,rfl⟩
  | some v =>
    obtain ⟨hview,hacts⟩ := v.closeParts_all
    rw [closeParts_of_some hv,hview]
    refine ⟨rfl,?_⟩
    have hmap : deeds ((v.closeParts ViewPart.all).2.map (n,·)) =
        ((v.closeParts ViewPart.all).2.flatMap ViewActivity.all).map (n,·) := by
      rw [deeds,List.flatMap_map,List.map_flatMap]
    rw [hmap,hacts,deeds,List.flatMap_singleton]

private theorem closeParts_views (r : Registry) (ns : List Nat) (result : Return) :
    (r.closeParts (Closing.start ns result).left).1 = (r.shutAll ns).1 ∧
    deeds (r.closeParts (Closing.start ns result).left).2 = deeds (r.shutAll ns).2 := by
  rw [Closing.start]
  induction ns generalizing r with
  | nil => exact ⟨rfl,rfl⟩
  | cons n ns ih =>
    obtain ⟨hview,hacts⟩ := closeParts_view r n
    obtain ⟨hviews,hrest⟩ := ih (r.shut n).1
    rw [List.flatMap_cons,closeParts_append,shutAll,hview]
    refine ⟨hviews,?_⟩
    change deeds (_ ++ _) = deeds ([(n,(r.shut n).2)] ++ _)
    rw [deeds,List.flatMap_append,← deeds,← deeds,hacts,hrest,deeds,deeds,deeds,List.flatMap_append]

private theorem fst_shut (r : Registry) (n : Nat) :
    (r.shut n).1 = { r with views := r.views.modify n (·.close.1) } := by
  rw [shut,List.modify_eq_set_getElem?,view?]
  cases r.views[n]? <;> rfl

private theorem snd_shut_shut (r : Registry) {m n : Nat} (hmn : m ≠ n) : ((r.shut m).1.shut n).2 = (r.shut n).2 := by
  have hv : (r.shut m).1.view? n = r.view? n := by
    rw [fst_shut,view?_modify]
    simp [hmn]
  rw [shut,shut.eq_def r n,hv]
  cases r.view? n <;> rfl

private theorem fst_shutAll (r : Registry) (ns : List Nat) :
    (r.shutAll ns).1 = { r with views := ns.foldl (fun vs n => vs.modify n (·.close.1)) r.views } := by
  induction ns generalizing r with
  | nil => rfl
  | cons n ns ih =>
    rw [shutAll,List.foldl_cons]
    refine (ih _).trans ?_
    rw [fst_shut]

private theorem snd_shutAll (r : Registry) {ns : List Nat} (hns : ns.Nodup) :
    (r.shutAll ns).2 = ns.map fun n => (n,(r.shut n).2) := by
  induction ns generalizing r with
  | nil => rfl
  | cons n ns ih =>
    obtain ⟨hn,hns⟩ := List.nodup_cons.mp hns
    rw [shutAll,List.map_cons]
    dsimp only
    rw [ih _ hns]
    refine congrArg _ (List.map_congr_left fun m hm => ?_)
    rw [snd_shut_shut]
    rintro rfl
    exact hn hm

private theorem shutAll_perm (r : Registry) {ns ms : List Nat} (hns : ns.Nodup) (h : ns.Perm ms) :
    (r.shutAll ns).1 = (r.shutAll ms).1 ∧ (deeds (r.shutAll ns).2).Perm (deeds (r.shutAll ms).2) := by
  constructor
  · rw [fst_shutAll,fst_shutAll]
    refine congrArg _ (h.foldl_eq' ?_ r.views)
    intro m _ n _ vs
    by_cases hmn : m = n
    · rw [hmn]
    · exact List.modify_modify_ne _ _ vs hmn
  · rw [snd_shutAll r hns,snd_shutAll r (h.nodup_iff.mp hns)]
    exact (h.map _).flatMap_right _

end Registry

namespace BusyRegistry

variable {b : BusyRegistry}

/-- A call that nothing interrupts does all that it has to do, in order. -/
theorem proceed_all {k : Nat} {taken : List Nat} {result : Return} {left : List (Nat × ViewPart)}
    (hk : b.closings[k]? = some ⟨taken,result,left⟩) :
    (b.after (List.replicate left.length (.proceed k))).registry = (b.registry.closeParts left).1 ∧
    b.activities (List.replicate left.length (.proceed k)) = (b.registry.closeParts left).2 ∧
    b.returned (List.replicate left.length (.proceed k)) = if left = [] then [] else [(k,result)] := by
  induction left generalizing b with
  | nil => exact ⟨rfl,rfl,rfl⟩
  | cons x left ih =>
    obtain ⟨n,p⟩ := x
    have hone : b.call (.proceed k) = (⟨(b.registry.closePart n p).1,b.closings.set k ⟨taken,result,left⟩⟩,
        .went k n (b.registry.closePart n p).2 (if left = [] then some result else none)) := by
      rw [call,proceed,hk]
    have hk' : (b.call (.proceed k)).1.closings[k]? = some ⟨taken,result,left⟩ := by
      rw [hone]
      exact List.getElem?_set_self (List.getElem?_eq_some_iff.mp hk).1
    obtain ⟨hafter,hacts,hreturned⟩ := ih hk'
    rw [List.length_cons,List.replicate_succ,after_cons,activities_cons,returned_cons,hafter,hacts,hreturned,hone]
    refine ⟨rfl,rfl,?_⟩
    cases left <;> rfl

/-- A call that closes some views, and the things that it does. -/
def whole (b : BusyRegistry) (c : RegistryCall) (ns : List Nat) : List RegistryCall :=
  c::List.replicate (ns.length * ViewPart.all.length) (.proceed b.closings.length)

private theorem whole_of_begin {c : RegistryCall} {r : Registry} {ns : List Nat} {result : Return}
    (hc : b.call c = b.begin r ns result) :
    (b.after (b.whole c ns)).registry = (r.shutAll ns).1 ∧
    deeds (b.activities (b.whole c ns)) = deeds (r.shutAll ns).2 ∧
    b.returned (b.whole c ns) = [(b.closings.length,result)] := by
  have hk : (b.call c).1.closings[b.closings.length]? = some ⟨ns,result,(Closing.start ns result).left⟩ := by
    rw [hc,begin]
    simp [Closing.start]
  obtain ⟨hafter,hacts,hreturned⟩ := proceed_all hk
  obtain ⟨hviews,hdeeds⟩ := r.closeParts_views ns result
  have hregistry : (b.call c).1.registry = r := by rw [hc]; rfl
  rw [length_start] at hafter hacts hreturned
  rw [whole,after_cons,activities_cons,returned_cons,hafter,hacts,hreturned,hregistry,hviews,hc]
  refine ⟨rfl,hdeeds,?_⟩
  cases ns <;> rfl

/-! ### A registry after any calls -/

private theorem options_call (b : BusyRegistry) (c : RegistryCall) :
    (b.call c).1.registry.options = b.registry.options := by
  cases c with
  | openAt q resume =>
    rw [call,Registry.openAt]
    cases b.registry.number? q <;> rfl
  | get q | close q | closeAll rank | happen n o => rfl
  | proceed k =>
    rw [call]
    rcases proceed_cases b k with hb | ⟨taken,result,n,p,left,_,hb⟩
    · rw [hb]
    · rw [hb,Registry.fst_closePart]

private theorem options_after (b : BusyRegistry) (cs : List RegistryCall) :
    (b.after cs).registry.options = b.registry.options := by
  induction cs generalizing b with
  | nil => rfl
  | cons c cs ih => exact (ih (b.call c).1).trans (options_call b c)

/-- What holds after some calls, and of the next ones. -/
structure Kept (options : CollectionOptions) (cs : List RegistryCall) (b : BusyRegistry) : Prop where
  /-- Every view is registered or was taken out by one call, and that once. -/
  once : (b.registry.registered.values ++ b.taken).Perm (List.range b.registry.views.length)
  single : ∀ n ∈ b.registry.registered.values, ∃ v, b.registry.view? n = some v ∧
    ∀ project, b.registry.number? project = some n ↔ project = v.projectId
  /-- No view is taken out by two calls, -/
  sole : ∀ {i j : Nat} {c d : Closing} {n : Nat}, b.closings[i]? = some c → b.closings[j]? = some d →
    n ∈ c.taken → n ∈ d.taken → i = j
  /-- and who returns that a project was open has taken out one. -/
  counted : ∀ c ∈ b.closings, ∀ was, c.result = .close was → c.taken.length = was.toNat
  listed : b.registry.openProjects.Pairwise (· < ·) ∧
    ∀ project, project ∈ b.registry.openProjects ↔ cs.foldl (opens project) false = true
  lasts : ∀ c {project n}, b.registry.number? project = some n →
    (b.call c).1.registry.number? project = if opens project true c then some n else none
  got : ∀ project, b.call (.get project) = (b,.got (b.registry.number? project)) ∧
    ((b.registry.get? project).isSome ↔ project ∈ b.registry.openProjects)
  reopened : ∀ {project n}, b.registry.number? project = some n → ∀ resume,
    b.call (.openAt project resume) = (b,.opened n none)
  opened : ∀ {project}, project ∉ b.registry.openProjects → ∀ resume,
    let (b',answer) := b.call (.openAt project resume)
    let n := b.registry.views.length
    answer = .opened n (some (ProjectView.start project options resume).2) ∧
      b'.registry.number? project = some n ∧
      b'.registry.view? n = some (ProjectView.start project options resume).1 ∧ b'.closings = b.closings
  /-- Closing a project returns whether it was open, -/
  closes : ∀ project ds, b.Returns (.close project) (b.registry.number? project).toList
    (.close (project ∈ b.registry.openProjects)) ds
  /-- and closing all of them returns. -/
  closesAll : ∀ rank ds, b.Returns (.closeAll rank) (b.order rank) .closeAll ds
  /-- A call that nothing interrupts does what the registry does at once, -/
  unbroken : ∀ project, let run := b.whole (.close project) (b.registry.number? project).toList
    (b.after run).registry = (b.registry.close project).1 ∧
      b.returned run = [(b.closings.length,.close (b.registry.close project).2.1)] ∧
      deeds (b.activities run) = deeds (b.registry.close project).2.2
  /-- and the order of the views does not matter. -/
  unbrokenAll : ∀ rank, let run := b.whole (.closeAll rank) (b.order rank)
    (b.after run).registry = b.registry.closeAll.1 ∧ b.returned run = [(b.closings.length,.closeAll)] ∧
      (deeds (b.activities run)).Perm (deeds b.registry.closeAll.2)
  apart : ∀ c {n v}, b.registry.view? n = some v →
    (b.call c).1.registry.view? n = some (v.after (c.at? n).toList) ∨
      ∃ k closing, c = .proceed k ∧ b.closings[k]? = some closing ∧ n ∈ closing.taken
  /-- No closing has come near a view that none has taken out. -/
  untouched : ∀ {us ws project resume}, cs = us ++ .openAt project resume::ws →
    ((create options).after us).registry.number? project = none →
    let n := ((create options).after us).registry.views.length
    n ∉ b.taken → b.registry.view? n =
      some ((ProjectView.start project options resume).1.after (ws.filterMap (·.at? n)))

private theorem call_openAt_of_none {b : BusyRegistry} {project : Int64} (hp : b.registry.number? project = none)
    (resume : Positions) : b.call (.openAt project resume) =
      let start := ProjectView.start project b.registry.options resume
      (⟨{ b.registry with
          registered := b.registry.registered.insert project b.registry.views.length
          views := b.registry.views ++ [start.1] },b.closings⟩,
        .opened b.registry.views.length (some start.2)) := by
  rw [call,Registry.openAt,hp]

private theorem view?_openAt_of_none {b : BusyRegistry} {project : Int64} (hp : b.registry.number? project = none)
    (resume : Positions) : (b.call (.openAt project resume)).1.registry.view? b.registry.views.length =
      some (ProjectView.start project b.registry.options resume).1 := by
  rw [call_openAt_of_none hp]
  simp [Registry.view?]

private theorem mem_openProjects_after (b : BusyRegistry) (cs : List RegistryCall) (project : Int64) :
    project ∈ (b.after cs).registry.openProjects ↔ cs.foldl (opens project) (b.registry.isOpen project) = true := by
  rw [← isOpen_after,Registry.openProjects,Table.mem_keys]
  rfl

private theorem ascending_openProjects (r : Registry) : r.openProjects.Pairwise (· < ·) := by
  rw [Registry.openProjects,Table.keys,List.pairwise_map]
  exact r.registered.ascending.imp Std.compare_eq_lt.mp

private theorem Sound.isSome_get? (h : b.Sound) (project : Int64) :
    (b.registry.get? project).isSome ↔ project ∈ b.registry.openProjects := by
  rw [mem_openProjects,Registry.get?,Option.isSome_iff_exists]
  constructor
  · rintro ⟨v,hv⟩
    obtain ⟨n,hn,_⟩ := Option.bind_eq_some_iff.mp hv
    exact ⟨n,hn⟩
  · rintro ⟨n,hn⟩
    obtain ⟨v,hv,_⟩ := h.own hn
    exact ⟨v,Option.bind_eq_some_iff.mpr ⟨n,hn,hv⟩⟩

private theorem number?_eq_none {r : Registry} {project : Int64} (h : project ∉ r.openProjects) :
    r.number? project = none := by
  cases hn : r.number? project with
  | none => rfl
  | some n => exact absurd (mem_openProjects.mpr ⟨n,hn⟩) h

private theorem Sound.sole (h : b.Sound) {i j : Nat} {c d : Closing} (hi : b.closings[i]? = some c)
    (hj : b.closings[j]? = some d) {n : Nat} (hn : n ∈ c.taken) (hn' : n ∈ d.taken) : i = j := by
  have hnodup : b.taken.Nodup := (List.nodup_append.mp (h.once.nodup_iff.mpr List.nodup_range)).2.1
  obtain ⟨_,hapart⟩ := List.nodup_flatMap.mp hnodup
  have hpairs := List.pairwise_iff_getElem.mp hapart
  obtain ⟨hilt,rfl⟩ := List.getElem?_eq_some_iff.mp hi
  obtain ⟨hjlt,rfl⟩ := List.getElem?_eq_some_iff.mp hj
  rcases Nat.lt_trichotomy i j with hlt | heq | hlt
  · exact absurd hn' (hpairs i j hilt hjlt hlt hn)
  · exact heq
  · exact absurd hn (hpairs j i hjlt hilt hlt hn')

private theorem Sound.single (h : b.Sound) {n : Nat} (hn : n ∈ b.registry.registered.values) :
    ∃ v, b.registry.view? n = some v ∧
      ∀ project, b.registry.number? project = some n ↔ project = v.projectId := by
  obtain ⟨⟨q,m⟩,hm,rfl⟩ := List.mem_map.mp hn
  have hq : b.registry.number? q = some m := Table.mem_entries.mp hm
  obtain ⟨v,hv,hvq⟩ := h.own hq
  refine ⟨v,hv,fun project => ⟨?_,?_⟩⟩
  · intro hp
    obtain ⟨w,hw,hwp⟩ := h.own hp
    rw [← hwp,Option.some.inj (hw.symm.trans hv)]
  · rintro rfl
    rw [hvq]
    exact hq

/-- Opening and closing projects, whatever comes between the parts of a closing. -/
theorem kept_after (options : CollectionOptions) (cs : List RegistryCall) :
    Kept options cs ((create options).after cs) := by
  have hs := sound_after (sound_create options) cs
  have hoptions : ∀ ds, ((create options).after ds).registry.options = options :=
    fun ds => options_after _ ds
  constructor
  case once => exact hs.once
  case single => exact fun n hn => hs.single hn
  case sole => exact fun hi hj hn hn' => hs.sole hi hj hn hn'
  case counted => exact hs.counted
  case listed => exact ⟨ascending_openProjects _,fun project => mem_openProjects_after (create options) cs project⟩
  case lasts => exact fun c _ _ hn => number?_call _ c hn
  case got => exact fun project => ⟨rfl,hs.isSome_get? project⟩
  case reopened =>
    intro project n hn resume
    rw [call,Registry.openAt,hn]
  case opened =>
    intro project hp resume
    have hview := view?_openAt_of_none (number?_eq_none hp) resume
    rw [call_openAt_of_none (number?_eq_none hp)] at hview ⊢
    rw [hoptions] at hview ⊢
    exact ⟨rfl,Table.find?_insert_self _ _ _,hview,rfl⟩
  case closes =>
    intro project ds
    have hwas : (((create options).after cs).registry.number? project).isSome =
        decide (project ∈ ((create options).after cs).registry.openProjects) := by
      rw [Bool.eq_iff_iff,decide_eq_true_iff,mem_openProjects,Option.isSome_iff_exists]
    rw [← hwas]
    exact returns_of_begin hs rfl ds
  case closesAll => exact fun rank ds => returns_of_begin hs rfl ds
  case unbroken =>
    intro project run
    obtain ⟨hregistry,hdeeds,hreturned⟩ := whole_of_begin (b := (create options).after cs) (c := .close project) rfl
    exact ⟨hregistry,hreturned,hdeeds⟩
  case unbrokenAll =>
    intro rank run
    obtain ⟨hregistry,hdeeds,hreturned⟩ := whole_of_begin (b := (create options).after cs) (c := .closeAll rank) rfl
    have hperm : (((create options).after cs).order rank).Perm ((create options).after cs).registry.registered.values :=
      List.mergeSort_perm _ _
    obtain ⟨hviews,hacts⟩ := Registry.shutAll_perm ((create options).after cs).registry.unregisterAll.1
      (hperm.nodup_iff.mpr hs.nodup_values) hperm
    exact ⟨hregistry.trans hviews,hreturned,hdeeds ▸ hacts⟩
  case apart => exact fun c _ _ hv => view?_call hs c hv
  case untouched =>
    rintro us ws project resume rfl hnone n hn
    rw [after_append] at hn ⊢
    have hbegin := sound_after (sound_create options) us
    have hv := view?_openAt_of_none hnone resume
    rw [hoptions] at hv
    exact view?_after (sound_call hbegin _) ws hn hv

/-- A project is opened again while it is being closed. -/
example :
    let run := [.openAt 7 ⟨none,none⟩,.close 7,.proceed 0,.openAt 7 ⟨none,none⟩,.close 8] ++
      List.replicate 7 (.proceed 0)
    let b := (create ⟨30000,.default,true,16⟩).after run
    (create ⟨30000,.default,true,16⟩).returned run = [(1,.close false),(0,.close true)] ∧
      b.registry.openProjects = [7] ∧ b.registry.views.map (·.entities.status) = [.closed,.connecting] ∧
      b.registry.views.map (·.taskEvents.status) = [.closed,.connecting] := by decide +kernel

end BusyRegistry
end FieldReplica
