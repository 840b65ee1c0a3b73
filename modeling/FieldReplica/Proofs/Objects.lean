import FieldReplica.Proofs.Columns

/-!
# Reading objects

An object is read as a record exactly if no column stands in it twice, what stands for a column is what the
record has there, and the columns that are left out may be and are blank. Whatever the order of the columns and
whatever else stands in the object, the record is the same. An object of a text must besides be whole.
-/
namespace FieldReplica

namespace Doc

mutual

/-- A value that is at hand has the form of JSON. -/
theorem wellFormed_ofJson : ∀ v : Json, (ofJson v).wellFormed = true
  | .null | .bool _ | .number _ | .string _ => rfl
  | .array items => by simp [ofJson,wellFormed,wellFormed_ofItems items]
  | .object members => by simp [ofJson,wellFormed,wellFormed_ofMembers members]

private theorem wellFormed_ofItems : ∀ vs : List Json, wellFormedItems (ofItems vs) = true
  | [] => rfl
  | v::vs => by simp [ofItems,wellFormedItems,wellFormed_ofJson v,wellFormed_ofItems vs]

private theorem wellFormed_ofMembers : ∀ ms : List (String × Json), wellFormedMembers (ofMembers ms) = true
  | [] => rfl
  | (_,v)::ms => by simp [ofMembers,wellFormedMembers,wellFormed_ofJson v,wellFormed_ofMembers ms]

end

theorem mem_ofMembers {k : Option String} {doc : Doc} {ms : List (String × Json)} :
    (k,doc) ∈ ofMembers ms ↔ ∃ e ∈ ms, k = some e.1 ∧ doc = ofJson e.2 := by
  induction ms with
  | nil => simp [ofMembers]
  | cons e ms ih => simp [ofMembers,ih]

theorem keys_ofMembers (ms : List (String × Json)) : (ofMembers ms).filterMap (·.1) = ms.map (·.1) := by
  induction ms with
  | nil => rfl
  | cons e ms ih => simp [ofMembers,ih]

end Doc

namespace Schema

variable {R : Type} {s : Schema R} {Sound : R → Prop} {o : Origin} {c : Column R} {f : R → R} {x y r : R}
  {members : List (Option String × Doc)}

/-- A document is read as what a record has in a column. -/
def Shows (c : Column R) (o : Origin) (doc : Doc) (r : R) : Prop :=
  ∃ f, c.read o doc = .ok f ∧ ∀ x, c.write (f x) = c.write r

/-- A value is what a record has in a column. -/
def Holds (c : Column R) (v : Json) (r : R) : Prop := Shows c .value (.ofJson v) r

theorem SeparateOn.shows_iff (h : s.SeparateOn Sound) (hc : c ∈ s.columns) {doc : Doc} (hf : c.read o doc = .ok f)
    (x r : R) :
    Shows c o doc r ↔ c.write r = c.write (f x) := by
  constructor
  · rintro ⟨g,hg,hr⟩
    rw [← hr x,Except.ok.inj (hg.symm.trans hf)]
  · intro hr
    exact ⟨f,hf,fun y => by rw [hr,h.own c hc _ _ f hf y x]⟩

/-- The names of an object's members that are columns, in order. -/
def columnsIn (s : Schema R) (members : List (Option String × Doc)) : List String :=
  (members.filterMap (·.1)).filter fun name => (s.column? name).isSome

theorem mem_columnsIn (h : s.SeparateOn Sound) (hc : c ∈ s.columns) :
    c.name ∈ s.columnsIn members ↔ c.name ∈ members.filterMap (·.1) := by
  rw [columnsIn,List.mem_filter,h.column?_of_mem hc]
  simp only [Option.isSome_some,and_true]

private theorem columnsIn_cons_of_none {k : String} (hk : s.column? k = none) (doc : Doc)
    (members : List (Option String × Doc)) : s.columnsIn ((some k,doc)::members) = s.columnsIn members := by
  have hkeys : ((some k,doc)::members).filterMap (·.1) = k::members.filterMap (·.1) := rfl
  rw [columnsIn,hkeys,List.filter_cons_of_neg (by rw [hk]; exact Bool.false_ne_true)]
  rfl

private theorem columnsIn_cons_of_some {k : String} (hk : s.column? k = some c) (doc : Doc)
    (members : List (Option String × Doc)) : s.columnsIn ((some k,doc)::members) = k::s.columnsIn members := by
  have hkeys : ((some k,doc)::members).filterMap (·.1) = k::members.filterMap (·.1) := rfl
  rw [columnsIn,hkeys,List.filter_cons_of_pos (by rw [hk]; rfl)]
  rfl

/-- The members of an object make a record `y` of a record `x`. -/
structure Makes (s : Schema R) (o : Origin) (members : List (Option String × Doc)) (x y : R) : Prop where
  keyed : ∀ e ∈ members, e.1.isSome = true
  once : (s.columnsIn members).Nodup
  known : ∀ k doc, (some k,doc) ∈ members → s.column? k = none → s.closed = false ∧ doc.wellFormed = true
  held : ∀ k doc, (some k,doc) ∈ members → ∀ c, s.column? k = some c → Shows c o doc y
  others : ∀ c ∈ s.columns, c.name ∉ s.columnsIn members → c.write y = c.write x

private theorem makes_nil (h : s.SeparateOn Sound) (hx : Sound x) (hy : Sound y) : s.Makes o [] x y ↔ y = x := by
  constructor
  · intro hmakes
    exact h.whole y x hy hx fun c hc => hmakes.others c hc List.not_mem_nil
  · rintro rfl
    exact ⟨nofun,List.nodup_nil,nofun,nofun,fun _ _ _ => rfl⟩

private theorem makes_cons_of_none {k : String} {doc : Doc} (hk : s.column? k = none) :
    s.Makes o ((some k,doc)::members) x y ↔ (s.closed = false ∧ doc.wellFormed = true) ∧ s.Makes o members x y := by
  have hcolumns := columnsIn_cons_of_none hk doc members
  constructor
  · rintro ⟨hkeyed,honce,hknown,hheld,hothers⟩
    rw [hcolumns] at honce hothers
    exact ⟨hknown k doc List.mem_cons_self hk,fun e he => hkeyed e (List.mem_cons_of_mem _ he),honce,
      fun k' doc' he => hknown k' doc' (List.mem_cons_of_mem _ he),
      fun k' doc' he => hheld k' doc' (List.mem_cons_of_mem _ he),hothers⟩
  · rintro ⟨hopen,hkeyed,honce,hknown,hheld,hothers⟩
    refine ⟨List.forall_mem_cons.mpr ⟨rfl,hkeyed⟩,hcolumns ▸ honce,?_,?_,hcolumns ▸ hothers⟩
    · intro k' doc' he hk'
      rcases List.mem_cons.mp he with he | he
      · cases he
        exact hopen
      · exact hknown k' doc' he hk'
    · intro k' doc' he c hc
      rcases List.mem_cons.mp he with he | he
      · cases he
        cases hk.symm.trans hc
      · exact hheld k' doc' he c hc

private theorem makes_cons_of_some (h : s.SeparateOn Sound) {k : String} {doc : Doc} (hk : s.column? k = some c)
    (hf : c.read o doc = .ok f) :
    s.Makes o ((some k,doc)::members) x y ↔ k ∉ s.columnsIn members ∧ s.Makes o members (f x) y := by
  obtain ⟨hc,rfl⟩ := column?_eq_some hk
  have hcolumns := columnsIn_cons_of_some hk doc members
  constructor
  · rintro ⟨hkeyed,honce,hknown,hheld,hothers⟩
    rw [hcolumns] at honce hothers
    -- The column that stands first does not come again, so the others leave it as it was read.
    obtain ⟨hfresh,honce⟩ := List.nodup_cons.mp honce
    refine ⟨hfresh,fun e he => hkeyed e (List.mem_cons_of_mem _ he),honce,
      fun k' doc' he => hknown k' doc' (List.mem_cons_of_mem _ he),
      fun k' doc' he => hheld k' doc' (List.mem_cons_of_mem _ he),fun c' hc' hn' => ?_⟩
    by_cases hn : c'.name = c.name
    · obtain rfl := h.eq_of_name hc' hc hn
      exact (h.shows_iff hc hf x y).mp (hheld _ doc List.mem_cons_self _ hk)
    · rw [hothers c' hc' (by simp [hn,hn']),h.others c hc c' hc' hn _ _ f hf]
  · rintro ⟨hfresh,hkeyed,honce,hknown,hheld,hothers⟩
    refine ⟨List.forall_mem_cons.mpr ⟨rfl,hkeyed⟩,hcolumns ▸ List.nodup_cons.mpr ⟨hfresh,honce⟩,?_,?_,?_⟩
    · intro k' doc' he hnone
      rcases List.mem_cons.mp he with he | he
      · cases he
        cases hk.symm.trans hnone
      · exact hknown k' doc' he hnone
    · intro k' doc' he c' hc'
      rcases List.mem_cons.mp he with he | he
      · cases he
        cases hk.symm.trans hc'
        exact (h.shows_iff hc hf x y).mpr (hothers c hc hfresh)
      · exact hheld k' doc' he c' hc'
    · intro c' hc' hn
      rw [hcolumns,List.mem_cons,not_or] at hn
      rw [hothers c' hc' hn.2,h.others c hc c' hc' hn.1 _ _ f hf]

/-- An object is read to its end exactly if its members make the record that comes out. -/
theorem readMembers_eq_ok (h : s.SeparateOn Sound) (hx : Sound x) (hy : Sound y) {seen seen' : List String} :
    s.readMembers o x seen members = .ok (y,seen') ↔
      s.Makes o members x y ∧ (∀ name ∈ s.columnsIn members, name ∉ seen) ∧
      seen' = (s.columnsIn members).reverse ++ seen := by
  induction members generalizing x seen with
  | nil =>
    rw [makes_nil h hx hy]
    simp [readMembers,columnsIn,eq_comm]
  | cons e members ih =>
    obtain ⟨_ | k,doc⟩ := e
    · exact iff_of_false nofun fun hmakes => Bool.false_ne_true (hmakes.1.keyed _ List.mem_cons_self)
    · rw [readMembers]
      cases hk : s.column? k with
      | none =>
        rw [makes_cons_of_none hk,columnsIn_cons_of_none hk]
        cases s.closed with
        | true => simp
        | false => cases hform : doc.wellFormed <;> simp [Decoder.guard,ih hx]
      | some c =>
        rw [columnsIn_cons_of_some hk,List.forall_mem_cons]
        dsimp only
        split
        · next hseen => exact iff_of_false nofun fun hmakes => hmakes.2.1.1 hseen
        · next hseen =>
          cases hf : c.read o doc with
          | error e =>
            refine iff_of_false nofun fun hmakes => ?_
            obtain ⟨f,hf',_⟩ := hmakes.1.held k doc List.mem_cons_self c hk
            cases hf.symm.trans hf'
          | ok f =>
            change s.readMembers o (f x) (k::seen) members = _ ↔ _
            rw [ih (h.kept c (column?_eq_some hk).1 o doc f hf x hx),makes_cons_of_some h hk hf]
            constructor
            · rintro ⟨hmakes,hfresh,rfl⟩
              exact ⟨⟨fun hmem => hfresh k hmem List.mem_cons_self,hmakes⟩,
                ⟨hseen,fun name hn hs => hfresh name hn (List.mem_cons_of_mem _ hs)⟩,by simp⟩
            · rintro ⟨⟨hk',hmakes⟩,⟨_,hfresh⟩,rfl⟩
              refine ⟨hmakes,fun name hn hmem => ?_,by simp⟩
              rcases List.mem_cons.mp hmem with rfl | hmem
              · exact hk' hn
              · exact hfresh name hn hmem

private theorem sound_of_readMembers (h : s.SeparateOn Sound) (hx : Sound x) {seen seen' : List String}
    (hread : s.readMembers o x seen members = .ok (y,seen')) : Sound y := by
  induction members generalizing x seen with
  | nil =>
    cases hread
    exact hx
  | cons e members ih =>
    obtain ⟨_ | k,doc⟩ := e
    · cases hread
    · rw [readMembers] at hread
      cases hk : s.column? k with
      | none =>
        rw [hk] at hread
        dsimp only [Decoder.guard] at hread
        split at hread
        · cases hread
        · split at hread
          · exact ih hx hread
          · cases hread
      | some c =>
        rw [hk] at hread
        dsimp only at hread
        split at hread
        · cases hread
        · cases hf : c.read o doc with
          | error e => rw [hf] at hread; cases hread
          | ok f =>
            rw [hf] at hread
            exact ih (h.kept c (column?_eq_some hk).1 o doc f hf x hx) hread

theorem sound_of_decode (h : s.SeparateOn Sound) {deep whole : Bool}
    (hread : s.decode o (.object deep members whole) = .ok r) : Sound r := by
  rw [decode,Decoder.guard] at hread
  split at hread
  · cases hz : s.readMembers o s.blank [] members with
    | error e => rw [hz] at hread; cases hread
    | ok z =>
      obtain ⟨x,seen⟩ := z
      rw [hz] at hread
      change Decoder.guard whole .malformed _ = _ at hread
      rw [Decoder.guard] at hread
      split at hread
      · split at hread
        · cases hread
        · cases hread
          exact sound_of_readMembers h h.blank hz
      · cases hread
  · cases hread

/-- An object is read as a record exactly if it is whole, its members make that record of a blank one and no column
is left out that must be there. -/
theorem decode_object_iff (h : s.SeparateOn Sound) (hr : Sound r) {deep whole : Bool} :
    s.decode o (.object deep members whole) = .ok r ↔ (deep = false ∧ whole = true) ∧ s.Makes o members s.blank r ∧
      ∀ c ∈ s.columns, c.name ∉ members.filterMap (·.1) → c.presence ≠ .required := by
  have hmissing : s.missing? ((s.columnsIn members).reverse ++ []) = none ↔
      ∀ c ∈ s.columns, c.name ∉ members.filterMap (·.1) → c.presence ≠ .required := by
    rw [missing?,Option.map_eq_none_iff,List.find?_eq_none]
    refine forall_congr' fun c => forall_congr' fun hc => ?_
    rw [← mem_columnsIn h hc]
    simp [imp_not_comm]
  have hread : s.decode o (.object deep members whole) = .ok r ↔ (deep = false ∧ whole = true) ∧
      ∃ seen, s.readMembers o s.blank [] members = .ok (r,seen) ∧ s.missing? seen = none := by
    simp only [decode]
    cases deep <;> cases hz : s.readMembers o s.blank [] members with
    | error e => simp [Decoder.guard,bind,Except.bind]
    | ok z =>
      obtain ⟨x,seen⟩ := z
      cases whole <;> cases hm : s.missing? seen <;> simp [Decoder.guard,bind,Except.bind,hm]
  rw [hread,← hmissing]
  refine and_congr_right fun _ => ?_
  simp only [readMembers_eq_ok h h.blank hr]
  constructor
  · rintro ⟨_,⟨hmakes,_,rfl⟩,hm⟩
    exact ⟨hmakes,hm⟩
  · rintro ⟨hmakes,hm⟩
    exact ⟨_,⟨hmakes,fun _ _ => List.not_mem_nil,rfl⟩,hm⟩

/-- An object at hand is whole. -/
theorem decode_value_iff (h : s.SeparateOn Sound) (hr : Sound r) {members : List (String × Json)} :
    Decoder.ofJson s.decode (.object members) = .ok r ↔ s.Makes .value (Doc.ofMembers members) s.blank r ∧
      ∀ c ∈ s.columns, c.name ∉ members.map (·.1) → c.presence ≠ .required := by
  rw [Decoder.ofJson,Doc.ofJson,decode_object_iff h hr,and_iff_right ⟨rfl,rfl⟩,Doc.keys_ofMembers]

/-- An object that has all columns is read as the record that has what stands for them. -/
theorem decode_columns_iff (h : s.SeparateOn Sound) (hr : Sound r) {value : Column R → Json} :
    Decoder.ofJson s.decode (.object (s.columns.map fun c => (c.name,value c))) = .ok r ↔
      ∀ c ∈ s.columns, Holds c (value c) r := by
  have hnames : (s.columns.map fun c => (c.name,value c)).map (·.1) = s.columns.map (·.name) := List.map_map
  have hthere : ∀ c ∈ s.columns, c.name ∈ (s.columns.map fun c => (c.name,value c)).map (·.1) := fun c hc =>
    hnames ▸ List.mem_map.mpr ⟨c,hc,rfl⟩
  have hmem : ∀ k doc, (k,doc) ∈ Doc.ofMembers (s.columns.map fun c => (c.name,value c)) →
      ∃ c ∈ s.columns, k = some c.name ∧ doc = .ofJson (value c) := by
    intro k doc he
    obtain ⟨e,hmem,rfl,rfl⟩ := Doc.mem_ofMembers.mp he
    obtain ⟨c,hc,rfl⟩ := List.mem_map.mp hmem
    exact ⟨c,hc,rfl,rfl⟩
  rw [decode_value_iff h hr]
  constructor
  · intro hmakes c hc
    exact hmakes.1.held _ _ (Doc.mem_ofMembers.mpr ⟨_,List.mem_map.mpr ⟨c,hc,rfl⟩,rfl,rfl⟩) c (h.column?_of_mem hc)
  · intro hheld
    refine ⟨⟨?_,?_,?_,?_,?_⟩,fun c hc hn => absurd (hthere c hc) hn⟩
    · rintro ⟨k,doc⟩ he
      obtain ⟨c,_,rfl,_⟩ := hmem k doc he
      rfl
    · rw [columnsIn,Doc.keys_ofMembers,hnames]
      exact h.distinct.filter _
    · intro k doc he hnone
      obtain ⟨c,hc,hk,_⟩ := hmem _ doc he
      obtain rfl := Option.some.inj hk
      cases (h.column?_of_mem hc).symm.trans hnone
    · intro k doc he c' hc'
      obtain ⟨c,hc,hk,rfl⟩ := hmem _ doc he
      obtain rfl := Option.some.inj hk
      obtain rfl : c = c' := Option.some.inj ((h.column?_of_mem hc).symm.trans hc')
      exact hheld c hc
    · intro c hc hn
      rw [mem_columnsIn h hc,Doc.keys_ofMembers] at hn
      exact absurd (hthere c hc) hn

/-- A record is what its own object is read as. -/
theorem decode_encode (h : s.SeparateOn Sound) (hr : Sound r) : Decoder.ofJson s.decode (s.encode r) = .ok r := by
  refine (decode_columns_iff h hr).mpr fun c hc => ?_
  obtain ⟨f,hf,hfr⟩ := h.again c hc .value r hr
  exact (h.shows_iff hc hf r r).mpr (by rw [hfr])

/-- Two documents that a column reads alike may stand for one another. -/
theorem readMembers_congr {k : String} {doc doc' : Doc}
    (hread : ∀ c : Column R, s.column? k = some c → c.read o doc = c.read o doc')
    (hform : doc.wellFormed = doc'.wellFormed) (l m : List (Option String × Doc)) (x : R) (seen : List String) :
    s.readMembers o x seen (l ++ (some k,doc)::m) = s.readMembers o x seen (l ++ (some k,doc')::m) := by
  induction l generalizing x seen with
  | nil =>
    rw [List.nil_append,List.nil_append,readMembers,readMembers,hform]
    cases hk : s.column? k with
    | none => rfl
    | some c => simp only [hread c hk]
  | cons e l ih =>
    obtain ⟨_ | k',doc''⟩ := e
    · rfl
    · rw [List.cons_append,List.cons_append,readMembers,readMembers]
      simp only [ih]

end Schema
end FieldReplica
