import FieldReplica.Proofs.InstantText
import FieldReplica.Proofs.Patch
import FieldReplica.Row.TaskEvent

/-!
# Columns do not touch one another

What a column reads is its value from then on, whatever row it is read into, and no other column notices. What
it writes it reads again, so the columns of a row together say all of it. The time of a task event is an exception
where its text says something else: nothing that is read has such a time.
-/
namespace FieldReplica

/-! ### Writing and reading again -/

namespace Decoder

variable {α : Type}

/-- A decoder reads what is written. -/
def Reads (read : Decoder α) (write : α → Json) : Prop := ∀ o a, read o (.ofJson (write a)) = .ok a

theorem Reads.inj {read : Decoder α} {write : α → Json} (h : read.Reads write) {a b : α} :
    write a = write b ↔ a = b := by
  constructor
  · intro hab
    have hread := h .value a
    rw [hab,h .value b] at hread
    exact (Except.ok.inj hread).symm
  · exact congrArg write

theorem reads_string : string.Reads .string := fun _ _ => rfl

theorem reads_int64 : int64.Reads Entity.int64Json := by
  intro o n
  have hrange : Int64.minValue.toInt ≤ n.toInt ∧ n.toInt ≤ Int64.maxValue.toInt :=
    ⟨Int64.minValue_le_toInt n,Int64.toInt_le n⟩
  have hinteger : integer Int64.minValue.toInt Int64.maxValue.toInt o (.ofJson (Entity.int64Json n)) =
      .ok n.toInt := by
    rw [Entity.int64Json,Json.int,Doc.ofJson,integer,decide_eq_true hrange]
    rfl
  rw [int64,map,hinteger]
  exact congrArg Except.ok (Int64.ofInt_toInt n)

theorem reads_list {read : Decoder α} {write : α → Json} (h : read.Reads write) :
    (list read).Reads fun as => .array (as.map write) := by
  intro o as
  have hitems : items read o (Doc.ofItems (as.map write)) = .ok as := by
    induction as with
    | nil => rfl
    | cons a as ih =>
      simp only [List.map_cons,Doc.ofItems,items,h o a,ih]
      rfl
  simp only [Doc.ofJson,list,hitems]
  rfl

theorem reads_optionalText : (optional string).Reads Entity.optionalText := by
  intro o v
  cases v <;> rfl

theorem reads_status : (Named.decode (α := EntityStatus)).Reads Named.toJson := by
  intro o v
  cases v <;> rfl

theorem reads_eventKind : (Named.decode (α := TaskEventKind)).Reads Named.toJson := by
  intro o v
  cases v <;> rfl

theorem reads_taskStatus : (Named.decode (α := TaskStatus)).Reads Named.toJson := by
  intro o v
  cases v <;> rfl

theorem decodeInstant_string (o : Origin) (s : String) : TaskEvent.decodeInstant o (.string (some s)) =
    match Time.Instant.ofText? s with
    | some t => .ok t
    | none => .error .invalid := rfl

private theorem decodeInstant_toText (o : Origin) {t : Time.Instant} (h : t.Regular) :
    TaskEvent.decodeInstant o (.ofJson (.string t.toText)) = .ok t := by
  change TaskEvent.decodeInstant o (.string (some t.toText)) = .ok t
  rw [decodeInstant_string,Time.Instant.ofText?_toText_of_regular h]

theorem regular_of_decodeInstant {o : Origin} {doc : Doc} {t : Time.Instant}
    (h : TaskEvent.decodeInstant o doc = .ok t) : t.Regular := by
  cases hs : string o doc with
  | error e =>
    rw [TaskEvent.decodeInstant,bind,hs] at h
    cases h
  | ok s =>
    obtain rfl := eq_of_string hs
    rw [decodeInstant_string] at h
    cases ht : Time.Instant.ofText? s with
    | none => rw [ht] at h; cases h
    | some u =>
      rw [ht] at h
      cases h
      exact Time.Instant.regular_of_ofText? ht

theorem reads_osmId : Entity.decodeOsmId.Reads .string := fun _ _ => rfl

end Decoder

private theorem Column.again_ofField {R α : Type} {name : String} {presence : Presence} {get : R → α} {set : α → R → R}
    {write : α → Json} {read : Decoder α} (o : Origin) (r : R) (h : read o (.ofJson (write (get r))) = .ok (get r))
    (hset : set (get r) r = r) : ∃ f, (Column.ofField name presence get set write read).read o
      (.ofJson ((Column.ofField name presence get set write read).write r)) = .ok f ∧ f r = r := by
  refine ⟨set (get r),?_,hset⟩
  simp only [Column.ofField,Decoder.map,h]
  rfl

/-! ### Columns that keep apart -/

namespace Schema

variable {R : Type}

/-- The columns of a schema keep apart from one another, and say all of a record that is sound. What is read is
sound. -/
structure SeparateOn (s : Schema R) (Sound : R → Prop) : Prop where
  distinct : (s.columns.map (·.name)).Nodup
  /-- What a column reads is its value in whatever record. -/
  own : ∀ c ∈ s.columns, ∀ o doc f, c.read o doc = .ok f → ∀ r r', c.write (f r) = c.write (f r')
  others : ∀ c ∈ s.columns, ∀ c' ∈ s.columns, c'.name ≠ c.name → ∀ o doc f, c.read o doc = .ok f →
    ∀ r, c'.write (f r) = c'.write r
  blank : Sound s.blank
  kept : ∀ c ∈ s.columns, ∀ o doc f, c.read o doc = .ok f → ∀ r, Sound r → Sound (f r)
  again : ∀ c ∈ s.columns, ∀ o r, Sound r → ∃ f, c.read o (.ofJson (c.write r)) = .ok f ∧ f r = r
  whole : ∀ r r', Sound r → Sound r' → (∀ c ∈ s.columns, c.write r = c.write r') → r = r'

/-- The columns say all of every record. -/
abbrev Separate (s : Schema R) : Prop := s.SeparateOn fun _ => True

/-- A function that gives values to the columns of some names and leaves the others as they are. -/
structure Sets (s : Schema R) (names : List String) (f : R → R) : Prop where
  named : ∀ c ∈ s.columns, c.name ∈ names → ∀ r r', c.write (f r) = c.write (f r')
  others : ∀ c ∈ s.columns, c.name ∉ names → ∀ r, c.write (f r) = c.write r

variable {s : Schema R} {Sound : R → Prop} {names : List String} {f g : R → R}

theorem SeparateOn.eq_of_name (h : s.SeparateOn Sound) {c c' : Column R} (hc : c ∈ s.columns) (hc' : c' ∈ s.columns)
    (hn : c.name = c'.name) : c = c' :=
  List.inj_on_of_nodup_map h.distinct hc hc' hn

theorem SeparateOn.column?_of_mem (h : s.SeparateOn Sound) {c : Column R} (hc : c ∈ s.columns) :
    s.column? c.name = some c := by
  cases hfind : s.column? c.name with
  | none => exact absurd rfl (column?_eq_none hfind c hc)
  | some c' =>
    obtain ⟨hc',hn⟩ := column?_eq_some hfind
    rw [h.eq_of_name hc' hc hn]

theorem SeparateOn.sets_read (h : s.SeparateOn Sound) {c : Column R} (hc : c ∈ s.columns) {o : Origin} {doc : Doc}
    (hf : c.read o doc = .ok f) : s.Sets [c.name] f where
  named c' hc' hn := by
    rw [h.eq_of_name hc' hc (List.mem_singleton.mp hn)]
    exact h.own c hc o doc f hf
  others c' hc' hn := h.others c hc c' hc' (fun he => hn (List.mem_singleton.mpr he)) o doc f hf

theorem sets_id (hn : ∀ c ∈ s.columns, c.name ∉ names) : s.Sets names id where
  named c hc hmem := absurd hmem (hn c hc)
  others _ _ _ _ := rfl

theorem Sets.comp {more : List String} (hf : s.Sets names f) (hg : s.Sets more g) :
    s.Sets (names ++ more) (g ∘ f) where
  named c hc hmem r r' := by
    by_cases hmore : c.name ∈ more
    · exact hg.named c hc hmore (f r) (f r')
    · have hnames : c.name ∈ names := (List.mem_append.mp hmem).resolve_right hmore
      have hsame := hf.named c hc hnames r r'
      rw [Function.comp_apply,Function.comp_apply,hg.others c hc hmore,hg.others c hc hmore,hsame]
  others c hc hmem r := by
    rw [List.mem_append,not_or] at hmem
    rw [Function.comp_apply,hg.others c hc hmem.2,hf.others c hc hmem.1]

/-- Setting columns a second time changes nothing. -/
theorem Sets.again (h : s.Separate) (hf : s.Sets names f) (r : R) : f (f r) = f r := by
  apply h.whole _ _ trivial trivial
  intro c hc
  by_cases hn : c.name ∈ names
  · exact hf.named c hc hn (f r) r
  · exact hf.others c hc hn (f r)

/-- A record stays as it is exactly if the columns that are set have their values already. -/
theorem Sets.fixed_iff (h : s.Separate) (hf : s.Sets names f) (r : R) :
    f r = r ↔ ∀ c ∈ s.columns, c.name ∈ names → c.write (f r) = c.write r := by
  constructor
  · intro hr c _ _
    rw [hr]
  · intro hr
    apply h.whole _ _ trivial trivial
    intro c hc
    by_cases hn : c.name ∈ names
    · exact hr c hc hn
    · exact hf.others c hc hn r

end Schema

/-! ### The columns of an entity -/

namespace Entity

theorem separate : (Row.schema : Schema Entity).Separate where
  distinct := by decide
  own := by
    intro c hc o doc f hf r r'
    simp only [Row.schema,columns,List.mem_cons,List.not_mem_nil,or_false] at hc
    rcases hc with rfl | rfl | rfl | rfl | rfl | rfl | rfl | rfl
    all_goals obtain ⟨_,_,rfl⟩ := Column.read_ofField hf; rfl
  others := by
    intro c hc c' hc' hn o doc f hf r
    simp only [Row.schema,columns,List.mem_cons,List.not_mem_nil,or_false] at hc hc'
    rcases hc with rfl | rfl | rfl | rfl | rfl | rfl | rfl | rfl
    all_goals
      obtain ⟨_,_,rfl⟩ := Column.read_ofField hf
      rcases hc' with rfl | rfl | rfl | rfl | rfl | rfl | rfl | rfl
      all_goals first | exact absurd rfl hn | rfl
  blank := trivial
  kept _ _ _ _ _ _ _ _ := trivial
  again := by
    intro c hc o r _
    simp only [Row.schema,columns,List.mem_cons,List.not_mem_nil,or_false] at hc
    rcases hc with rfl | rfl | rfl | rfl | rfl | rfl | rfl | rfl
    · exact Column.again_ofField o r (Decoder.reads_string o _) rfl
    · exact Column.again_ofField o r (Decoder.reads_status o _) rfl
    · exact Column.again_ofField o r (Decoder.reads_int64 o _) rfl
    · exact Column.again_ofField o r (Decoder.reads_int64 o _) rfl
    · exact Column.again_ofField o r (Decoder.reads_osmId o _) rfl
    · exact Column.again_ofField o r (Decoder.reads_list Decoder.reads_string o _) rfl
    · exact Column.again_ofField o r (Decoder.reads_optionalText o _) rfl
    · exact Column.again_ofField o r (Decoder.reads_optionalText o _) rfl
  whole := by
    intro r r' _ _ h
    simp only [Row.schema,columns,List.forall_mem_cons,Column.ofField,Decoder.reads_string.inj,
      Decoder.reads_status.inj,Decoder.reads_int64.inj,Decoder.reads_optionalText.inj,
      (Decoder.reads_list Decoder.reads_string).inj] at h
    obtain ⟨_,_,_,_,_,_,_,_⟩ := r
    obtain ⟨_,_,_,_,_,_,_,_⟩ := r'
    obtain ⟨rfl,rfl,rfl,rfl,rfl,rfl,rfl,rfl,_⟩ := h
    rfl

end Entity

/-! ### The columns of a task event -/

namespace TaskEvent

theorem separate : (Row.schema : Schema TaskEvent).SeparateOn (·.createdAt.Regular) where
  distinct := by decide
  own := by
    intro c hc o doc f hf r r'
    simp only [Row.schema,columns,List.mem_cons,List.not_mem_nil,or_false] at hc
    rcases hc with rfl | rfl | rfl | rfl | rfl | rfl | rfl | rfl | rfl
    all_goals obtain ⟨_,_,rfl⟩ := Column.read_ofField hf; rfl
  others := by
    intro c hc c' hc' hn o doc f hf r
    simp only [Row.schema,columns,List.mem_cons,List.not_mem_nil,or_false] at hc hc'
    rcases hc with rfl | rfl | rfl | rfl | rfl | rfl | rfl | rfl | rfl
    all_goals
      obtain ⟨_,_,rfl⟩ := Column.read_ofField hf
      rcases hc' with rfl | rfl | rfl | rfl | rfl | rfl | rfl | rfl | rfl
      all_goals first | exact absurd rfl hn | rfl
  blank := by decide
  kept := by
    intro c hc o doc f hf r hr
    simp only [Row.schema,columns,List.mem_cons,List.not_mem_nil,or_false] at hc
    rcases hc with rfl | rfl | rfl | rfl | rfl | rfl | rfl | rfl | rfl
    case inr.inr.inr.inr.inr.inl =>
      obtain ⟨t,ht,rfl⟩ := Column.read_ofField hf
      exact Decoder.regular_of_decodeInstant ht
    all_goals obtain ⟨_,_,rfl⟩ := Column.read_ofField hf; exact hr
  again := by
    intro c hc o r hr
    simp only [Row.schema,columns,List.mem_cons,List.not_mem_nil,or_false] at hc
    rcases hc with rfl | rfl | rfl | rfl | rfl | rfl | rfl | rfl | rfl
    · exact Column.again_ofField o r (Decoder.reads_string o _) rfl
    · exact Column.again_ofField o r (Decoder.reads_eventKind o _) rfl
    · exact Column.again_ofField o r (Decoder.reads_int64 o _) rfl
    · exact Column.again_ofField o r (Decoder.reads_int64 o _) rfl
    · exact Column.again_ofField o r (Decoder.reads_optionalText o _) rfl
    · exact Column.again_ofField o r (Decoder.decodeInstant_toText o hr) rfl
    · exact Column.again_ofField o r (Decoder.reads_string o _) rfl
    · exact Column.again_ofField o r (Decoder.reads_optionalText o _) rfl
    · exact Column.again_ofField o r (Decoder.reads_taskStatus o _) rfl
  whole := by
    intro r r' hr hr' h
    simp only [Row.schema,columns,List.forall_mem_cons,Column.ofField,Decoder.reads_string.inj,
      Decoder.reads_eventKind.inj,Decoder.reads_int64.inj,Decoder.reads_optionalText.inj,
      Time.Instant.toText_inj hr hr',Decoder.reads_taskStatus.inj] at h
    obtain ⟨_,_,_,_,_,_,_,_,_⟩ := r
    obtain ⟨_,_,_,_,_,_,_,_,_⟩ := r'
    obtain ⟨rfl,rfl,rfl,rfl,rfl,rfl,rfl,rfl,rfl,_⟩ := h
    rfl

end TaskEvent
end FieldReplica
