import FieldReplica.Proofs.Objects

/-!
# How rows are spelt

Which values stand for what a row has in a column, table by table: a text for a text, a whole number for a
number, null for what is missing. An object is read as a row exactly if it spells that row: every column that
stands in it stands there once, with a value for what the row has, and the columns that it leaves out are those
that may be left out, which the row then has empty.
-/
namespace FieldReplica

/-! ### What a decoder takes -/

/-- A value names one of a closed set, as a text or as an object whose only member has that key and is null. -/
def Named.Spelt {α : Type} [Named α] (v : Json) (a : α) : Prop :=
  v = .string (Named.name a) ∨ v = .object [(Named.name a,.null)]

namespace Decoder

variable {α : Type}

private theorem string_iff {v : Json} {s : String} : string.ofJson v = .ok s ↔ v = .string s := by
  cases v <;> simp [ofJson,Doc.ofJson,string]

private theorem int64_iff {v : Json} {n : Int64} : int64.ofJson v = .ok n ↔ v = Entity.int64Json n := by
  refine ⟨fun h => ?_,fun h => h ▸ reads_int64 .value n⟩
  cases v with
  | number x =>
    cases x with
    | int m =>
      by_cases hm : Int64.minValue.toInt ≤ m ∧ m ≤ Int64.maxValue.toInt
      · have hread : int64.ofJson (.number (.int m)) = .ok (Int64.ofInt m) := by
          simp only [ofJson,Doc.ofJson,int64,map,integer,decide_eq_true hm]
          rfl
        rw [← Except.ok.inj (hread.symm.trans h),Entity.int64Json,Int64.toInt_ofInt_of_le hm.1 (by
          have := hm.2
          change m ≤ 9223372036854775807 at this
          omega)]
        rfl
      · simp only [ofJson,Doc.ofJson,int64,map,integer,decide_eq_false hm] at h
        cases h
    | float x => cases h
  | _ => cases h

private theorem osmId_iff {v : Json} {s : String} :
    Entity.decodeOsmId.ofJson v = .ok s ↔ v = .string s ∨ ∃ n : Int, v = .int n ∧ s = toString n := by
  cases v with
  | number n => cases n <;> simp [ofJson,Doc.ofJson,Entity.decodeOsmId,string,Json.int,eq_comm]
  | _ => simp [ofJson,Doc.ofJson,Entity.decodeOsmId,string,Json.int]

private theorem optionalText_iff {v : Json} {o : Option String} :
    (optional string).ofJson v = .ok o ↔ v = Entity.optionalText o := by
  refine ⟨fun h => ?_,fun h => h ▸ reads_optionalText .value o⟩
  cases v with
  | null => rw [← Except.ok.inj h]; rfl
  | string s => rw [← Except.ok.inj h]; rfl
  | _ => cases h

private theorem texts_iff {v : Json} {ss : List String} :
    (list string).ofJson v = .ok ss ↔ v = .array (ss.map .string) := by
  refine ⟨fun h => ?_,fun h => h ▸ reads_list reads_string .value ss⟩
  have hitems : ∀ vs ss, items string .value (Doc.ofItems vs) = .ok ss → vs = ss.map .string := by
    intro vs
    induction vs with
    | nil =>
      intro ss hss
      rw [← Except.ok.inj hss]
      rfl
    | cons v vs ih =>
      intro ss hss
      rw [Doc.ofItems,items] at hss
      cases hv : string .value (Doc.ofJson v) with
      | error e => rw [hv] at hss; cases hss
      | ok s =>
        cases hvs : items string .value (Doc.ofItems vs) with
        | error e => rw [hv,hvs] at hss; cases hss
        | ok ss' =>
          rw [hv,hvs] at hss
          rw [← Except.ok.inj hss,ih ss' hvs,string_iff.mp hv]
          rfl
  cases v with
  | array vs =>
    cases hvs : items string .value (Doc.ofItems vs) with
    | error e =>
      simp only [ofJson,Doc.ofJson,list,hvs] at h
      cases h
    | ok ss' =>
      simp only [ofJson,Doc.ofJson,list,hvs] at h
      rw [← Except.ok.inj h,hitems vs ss' hvs]
  | _ => cases h

private theorem named_iff [Named α] (hname : ∀ a : α, Named.ofName? (Named.name a) = some a) {v : Json} {a : α} :
    Named.decode.ofJson v = .ok a ↔ Named.Spelt v a := by
  have hnamed : ∀ s, variant.named (Named.ofName? (α := α)) s = .ok a ↔ s = Named.name a := by
    intro s
    rw [variant.named]
    cases hs : Named.ofName? (α := α) s with
    | none =>
      refine iff_of_false nofun ?_
      rintro rfl
      cases (hname a).symm.trans hs
    | some b =>
      have hb : Named.name b = s := by
        rw [Named.ofName?] at hs
        simpa using List.find?_some hs
      constructor
      · intro h
        rw [← Except.ok.inj h,hb]
      · rintro rfl
        exact congrArg Except.ok (Option.some.inj (hs.symm.trans (hname a)))
  cases v with
  | string s =>
    change variant.named Named.ofName? s = .ok a ↔ _
    rw [hnamed]
    simp [Named.Spelt]
  | object members =>
    rcases members with _ | ⟨⟨k,w⟩,_ | ⟨e,rest⟩⟩
    · exact iff_of_false nofun (by simp [Named.Spelt])
    · have hone : Named.decode.ofJson (.object [(k,w)]) = .ok a ↔
          variant.named (Named.ofName? (α := α)) k = .ok a ∧ variant.unit (.ofJson w) = .ok () := by
        change (do
          let a ← variant.named (Named.ofName? (α := α)) k
          variant.unit (.ofJson w)
          return a) = Except.ok a ↔ _
        cases variant.named (Named.ofName? (α := α)) k <;> cases variant.unit (.ofJson w) <;>
          simp [pure,Except.pure,Bind.bind,Except.bind]
      have hunit : variant.unit (.ofJson w) = .ok () ↔ w = .null := by
        cases w <;> simp [Doc.ofJson,variant.unit]
      rw [hone,hnamed,hunit]
      simp [Named.Spelt]
    · exact iff_of_false nofun (by simp [Named.Spelt])
  | _ => exact iff_of_false nofun (by simp [Named.Spelt])

private theorem instant_iff {v : Json} {t : Time.Instant} : TaskEvent.decodeInstant.ofJson v = .ok t ↔
    ∃ s, v = .string s ∧ Time.Instant.ofText? s = some t := by
  cases v with
  | string s =>
    change TaskEvent.decodeInstant .value (.string (some s)) = .ok t ↔ _
    rw [decodeInstant_string]
    cases h : Time.Instant.ofText? s <;> simp [h]
  | _ =>
    refine iff_of_false nofun ?_
    rintro ⟨s,hs,_⟩
    cases hs

end Decoder

private theorem Column.holds_ofField {R α : Type} {name : String} {presence : Presence} {get : R → α} {set : α → R → R}
    {write : α → Json} {read : Decoder α} (hset : ∀ a r, get (set a r) = a) (hread : read.Reads write)
    {v : Json} {r : R} :
    Schema.Holds (Column.ofField name presence get set write read) v r ↔ read.ofJson v = .ok (get r) := by
  constructor
  · rintro ⟨f,hf,hr⟩
    obtain ⟨a,ha,rfl⟩ := Column.read_ofField hf
    have hwrite : write (get (set a r)) = write (get r) := hr r
    rw [← hread.inj.mp hwrite,hset]
    exact ha
  · intro h
    refine ⟨set (get r),?_,fun x => congrArg write (hset _ x)⟩
    have h' : read .value (.ofJson v) = .ok (get r) := h
    simp only [ofField,Decoder.map,h']
    rfl

private theorem Column.unset_ofField {R α : Type} {name : String} {get : R → α} {set : α → R → R} {write : α → Json}
    {read : Decoder α} (hread : read.Reads write) {r b : R} :
    (Column.ofField name .defaulted get set write read).presence ≠ .required ∧
      (Column.ofField name .defaulted get set write read).write r =
        (Column.ofField name .defaulted get set write read).write b ↔ get r = get b :=
  (and_iff_right nofun).trans hread.inj

/-! ### The objects of a table's rows -/

/-- What values stand for what a row has in the column of a name, and when a row is empty in a column that may
be left out. -/
structure Spelling (R : Type) where
  names : List String
  has : R → Json → String → Prop
  unset : R → String → Prop

/-- An object's members spell a row. -/
structure Spelling.Spells {R : Type} (p : Spelling R) (members : List (String × Json)) (r : R) : Prop where
  /-- No column stands there twice. -/
  once : ((members.map (·.1)).filter (· ∈ p.names)).Nodup
  /-- What stands there for a column is what the row has. -/
  said : ∀ e ∈ members, e.1 ∈ p.names → p.has r e.2 e.1
  /-- In a column that is left out the row is empty. -/
  unsaid : ∀ name ∈ p.names, name ∉ members.map (·.1) → p.unset r name

/-- A spelling says what the columns of a schema read of a sound row and what may be left out. Rows that are not
sound are not spelt. -/
structure Spelling.Fits {R : Type} (p : Spelling R) (s : Schema R) (Sound : R → Prop) : Prop where
  names : p.names = s.columns.map (·.name)
  sound : ∀ members r, p.Spells members r → Sound r
  has : ∀ c ∈ s.columns, ∀ v r, Sound r → (Schema.Holds c v r ↔ p.has r v c.name)
  unset : ∀ c ∈ s.columns, ∀ r, c.presence ≠ .required ∧ c.write r = c.write s.blank ↔ p.unset r c.name

namespace Spelling

variable {R : Type} {p : Spelling R} {s : Schema R} {Sound : R → Prop}

theorem Fits.mem_names (hp : p.Fits s Sound) (name : String) : name ∈ p.names ↔ (s.column? name).isSome = true := by
  rw [hp.names,List.mem_map]
  constructor
  · rintro ⟨c,hc,rfl⟩
    by_contra hnone
    exact Schema.column?_eq_none (Option.not_isSome_iff_eq_none.mp hnone) c hc rfl
  · intro hsome
    obtain ⟨c,hc⟩ := Option.isSome_iff_exists.mp hsome
    exact ⟨c,Schema.column?_eq_some hc⟩

theorem Fits.columnsIn (hp : p.Fits s Sound) (members : List (String × Json)) :
    s.columnsIn (Doc.ofMembers members) = (members.map (·.1)).filter (· ∈ p.names) := by
  rw [Schema.columnsIn,Doc.keys_ofMembers]
  refine List.filter_congr fun name _ => ?_
  rw [Bool.eq_iff_iff,decide_eq_true_iff,hp.mem_names]

/-- An object is read as a row exactly if it spells that row. -/
theorem decode_iff (hs : s.SeparateOn Sound) (hopen : s.closed = false) (hp : p.Fits s Sound)
    {members : List (String × Json)}
    {r : R} : Decoder.ofJson s.decode (.object members) = .ok r ↔ p.Spells members r := by
  have hmem : ∀ name, name ∈ p.names ↔ ∃ c ∈ s.columns, c.name = name := fun name => by
    rw [hp.names,List.mem_map]
  have hthere : ∀ c ∈ s.columns, c.name ∈ s.columnsIn (Doc.ofMembers members) ↔ c.name ∈ members.map (·.1) :=
    fun c hc => by rw [Schema.mem_columnsIn hs hc,Doc.keys_ofMembers]
  constructor
  · intro hread
    have hr : Sound r := Schema.sound_of_decode hs hread
    obtain ⟨⟨_,honce,_,hheld,hothers⟩,hpresent⟩ := (Schema.decode_value_iff hs hr).mp hread
    refine ⟨hp.columnsIn members ▸ honce,?_,?_⟩
    · intro e he hn
      obtain ⟨c,hc,hn⟩ := (hmem e.1).mp hn
      have hshows := hheld e.1 _ (Doc.mem_ofMembers.mpr ⟨e,he,rfl,rfl⟩) c (hn ▸ hs.column?_of_mem hc)
      rw [← hn]
      exact (hp.has c hc e.2 r hr).mp hshows
    · intro name hname hn
      obtain ⟨c,hc,rfl⟩ := (hmem name).mp hname
      exact (hp.unset c hc r).mp ⟨hpresent c hc hn,hothers c hc (mt (hthere c hc).mp hn)⟩
  · intro hspells
    have hr := hp.sound members r hspells
    obtain ⟨honce,hsaid,hunsaid⟩ := hspells
    have hunset : ∀ c ∈ s.columns, c.name ∉ members.map (·.1) → c.presence ≠ .required ∧
        c.write r = c.write s.blank := fun c hc hn =>
      (hp.unset c hc r).mpr (hunsaid c.name ((hmem _).mpr ⟨c,hc,rfl⟩) hn)
    refine (Schema.decode_value_iff hs hr).mpr
      ⟨⟨?_,hp.columnsIn members ▸ honce,?_,?_,?_⟩,fun c hc hn => (hunset c hc hn).1⟩
    · rintro ⟨k,doc⟩ he
      obtain ⟨e,_,rfl,_⟩ := Doc.mem_ofMembers.mp he
      rfl
    · intro k doc he _
      obtain ⟨e,_,_,rfl⟩ := Doc.mem_ofMembers.mp he
      exact ⟨hopen,Doc.wellFormed_ofJson e.2⟩
    · intro k doc he c hc
      obtain ⟨e,hmember,hk,rfl⟩ := Doc.mem_ofMembers.mp he
      obtain rfl := Option.some.inj hk
      obtain ⟨hc,hn⟩ := Schema.column?_eq_some hc
      exact (hp.has c hc e.2 r hr).mpr (hn ▸ hsaid e hmember ((hmem _).mpr ⟨c,hc,hn⟩))
    · exact fun c hc hn => (hunset c hc (mt (hthere c hc).mpr hn)).2

end Spelling

namespace Entity

/-- A value stands for what an entity has in the column of a name. The map identifier may be given as a whole
number. -/
def Has (r : Entity) (v : Json) : String → Prop
  | "entity_id" => v = .string r.entityId
  | "status" => Named.Spelt v r.status
  | "project_id" => v = int64Json r.projectId
  | "task_id" => v = int64Json r.taskId
  | "osm_id" => v = .string r.osmId ∨ ∃ n : Int, v = .int n ∧ r.osmId = toString n
  | "submission_ids" => v = .array (r.submissionIds.map .string)
  | "geometry" => v = optionalText r.geometry
  | "created_by" => v = optionalText r.createdBy
  | _ => False

/-- An entity is empty in a column that may be left out. -/
def Unset (r : Entity) : String → Prop
  | "submission_ids" => r.submissionIds = []
  | "geometry" => r.geometry = none
  | "created_by" => r.createdBy = none
  | _ => False

def spelling : Spelling Entity where
  names := ["entity_id","status","project_id","task_id","osm_id","submission_ids","geometry","created_by"]
  has := Has
  unset := Unset

private theorem status_named : ∀ a : EntityStatus, Named.ofName? (Named.name a) = some a := by
  intro a
  cases a <;> rfl

theorem spelling_fits : spelling.Fits (Row.schema : Schema Entity) fun _ => True where
  names := rfl
  sound _ _ _ := trivial
  has := by
    intro c hc v r _
    simp only [Row.schema,columns,List.mem_cons,List.not_mem_nil,or_false] at hc
    rcases hc with rfl | rfl | rfl | rfl | rfl | rfl | rfl | rfl
    · exact (Column.holds_ofField (fun _ _ => rfl) Decoder.reads_string).trans Decoder.string_iff
    · exact (Column.holds_ofField (fun _ _ => rfl) Decoder.reads_status).trans (Decoder.named_iff status_named)
    · exact (Column.holds_ofField (fun _ _ => rfl) Decoder.reads_int64).trans Decoder.int64_iff
    · exact (Column.holds_ofField (fun _ _ => rfl) Decoder.reads_int64).trans Decoder.int64_iff
    · exact (Column.holds_ofField (fun _ _ => rfl) Decoder.reads_osmId).trans Decoder.osmId_iff
    · exact (Column.holds_ofField (fun _ _ => rfl) (Decoder.reads_list Decoder.reads_string)).trans
        Decoder.texts_iff
    · exact (Column.holds_ofField (fun _ _ => rfl) Decoder.reads_optionalText).trans Decoder.optionalText_iff
    · exact (Column.holds_ofField (fun _ _ => rfl) Decoder.reads_optionalText).trans Decoder.optionalText_iff
  unset := by
    intro c hc r
    simp only [Row.schema,columns,List.mem_cons,List.not_mem_nil,or_false] at hc
    rcases hc with rfl | rfl | rfl | rfl | rfl | rfl | rfl | rfl
    iterate 5 exact iff_of_false (fun h => h.1 rfl) id
    · exact Column.unset_ofField (Decoder.reads_list Decoder.reads_string)
    · exact Column.unset_ofField Decoder.reads_optionalText
    · exact Column.unset_ofField Decoder.reads_optionalText

end Entity

namespace TaskEvent

/-- A value stands for what a task event has in the column of a name. The time may be given with any offset. -/
def Has (r : TaskEvent) (v : Json) : String → Prop
  | "event_id" => v = .string r.eventId
  | "event" => Named.Spelt v r.event
  | "project_id" => v = Entity.int64Json r.projectId
  | "task_id" => v = Entity.int64Json r.taskId
  | "comment" => v = Entity.optionalText r.comment
  | "created_at" => ∃ s, v = .string s ∧ Time.Instant.ofText? s = some r.createdAt
  | "username" => v = .string r.username
  | "profile_img" => v = Entity.optionalText r.profileImg
  | "status" => Named.Spelt v r.status
  | _ => False

/-- A task event is empty in a column that may be left out. -/
def Unset (r : TaskEvent) : String → Prop
  | "comment" => r.comment = none
  | "profile_img" => r.profileImg = none
  | _ => False

def spelling : Spelling TaskEvent where
  names := ["event_id","event","project_id","task_id","comment","created_at","username","profile_img","status"]
  has := Has
  unset := Unset

private theorem event_named : ∀ a : TaskEventKind, Named.ofName? (Named.name a) = some a := by
  intro a
  cases a <;> rfl

private theorem status_named : ∀ a : TaskStatus, Named.ofName? (Named.name a) = some a := by
  intro a
  cases a <;> rfl

/-- A column that holds a time holds the one that is read, since what is read is regular. -/
theorem holds_createdAt {v : Json} {r : TaskEvent} (hr : r.createdAt.Regular) :
    Schema.Holds (Column.ofField "created_at" .required (·.createdAt) (fun t r => { r with createdAt := t })
      (fun t => .string t.toText) decodeInstant) v r ↔ decodeInstant.ofJson v = .ok r.createdAt := by
  constructor
  · rintro ⟨f,hf,hshown⟩
    obtain ⟨t,ht,rfl⟩ := Column.read_ofField hf
    have htext : Json.string t.toText = .string r.createdAt.toText := hshown r
    have hsame := (Time.Instant.toText_inj (Decoder.regular_of_decodeInstant ht) hr).mp (Json.string.inj htext)
    rw [← hsame]
    exact ht
  · intro h
    have h' : decodeInstant .value (.ofJson v) = .ok r.createdAt := h
    refine ⟨fun x => { x with createdAt := r.createdAt },?_,fun _ => rfl⟩
    simp only [Column.ofField,Decoder.map,h']
    rfl

private theorem regular_of_spells {members : List (String × Json)} {r : TaskEvent} (h : spelling.Spells members r) :
    r.createdAt.Regular := by
  have hname : "created_at" ∈ spelling.names := by decide
  by_cases hsaid : "created_at" ∈ members.map (·.1)
  · obtain ⟨e,he,hn⟩ := List.mem_map.mp hsaid
    have hhas := h.said e he (hn ▸ hname)
    rw [hn] at hhas
    obtain ⟨s,_,ht⟩ := hhas
    exact Time.Instant.regular_of_ofText? ht
  · exact (h.unsaid _ hname hsaid).elim

theorem spelling_fits : spelling.Fits (Row.schema : Schema TaskEvent) (·.createdAt.Regular) where
  names := rfl
  sound _ _ := regular_of_spells
  has := by
    intro c hc v r hr
    simp only [Row.schema,columns,List.mem_cons,List.not_mem_nil,or_false] at hc
    rcases hc with rfl | rfl | rfl | rfl | rfl | rfl | rfl | rfl | rfl
    · exact (Column.holds_ofField (fun _ _ => rfl) Decoder.reads_string).trans Decoder.string_iff
    · exact (Column.holds_ofField (fun _ _ => rfl) Decoder.reads_eventKind).trans (Decoder.named_iff event_named)
    · exact (Column.holds_ofField (fun _ _ => rfl) Decoder.reads_int64).trans Decoder.int64_iff
    · exact (Column.holds_ofField (fun _ _ => rfl) Decoder.reads_int64).trans Decoder.int64_iff
    · exact (Column.holds_ofField (fun _ _ => rfl) Decoder.reads_optionalText).trans Decoder.optionalText_iff
    · exact (holds_createdAt hr).trans Decoder.instant_iff
    · exact (Column.holds_ofField (fun _ _ => rfl) Decoder.reads_string).trans Decoder.string_iff
    · exact (Column.holds_ofField (fun _ _ => rfl) Decoder.reads_optionalText).trans Decoder.optionalText_iff
    · exact (Column.holds_ofField (fun _ _ => rfl) Decoder.reads_taskStatus).trans (Decoder.named_iff status_named)
  unset := by
    intro c hc r
    simp only [Row.schema,columns,List.mem_cons,List.not_mem_nil,or_false] at hc
    rcases hc with rfl | rfl | rfl | rfl | rfl | rfl | rfl | rfl | rfl
    iterate 4 exact iff_of_false (fun h => h.1 rfl) id
    · exact Column.unset_ofField Decoder.reads_optionalText
    iterate 2 exact iff_of_false (fun h => h.1 rfl) id
    · exact Column.unset_ofField Decoder.reads_optionalText
    · exact iff_of_false (fun h => h.1 rfl) id

end TaskEvent
end FieldReplica
