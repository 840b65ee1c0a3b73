import FieldReplica.Proofs.Spelling

/-!
# Rows written and read again

A row is what its own object is read as, so nothing of a row is lost when it is written. The exception is the time
of a task event whose nanoseconds pass a whole second elsewhere than at the end of a minute: it is written as a time
in the next second. A map identifier that is given as a whole number is taken digit by digit: the numbers that fit in
64 bits, with or without a sign, become their decimal texts, and no other number is taken for one of them. Zero with a
sign is not a whole number.
-/
namespace FieldReplica

namespace Numeral

/-- A numeral is a whole number: it has neither a point nor an exponent, and the digits and the sign of the
number. Zero has no sign; with one, it is a double. -/
structure Spells (x : Numeral) (n : Int) : Prop where
  fraction : x.fraction = []
  exponent : x.exponent = none
  digits : Nat.ofDigitChars 10 x.whole 0 = n.natAbs
  sign : x.negative = decide (n < 0)

theorem Spells.inj {x : Numeral} {n m : Int} (hn : x.Spells n) (hm : x.Spells m) : n = m := by
  have hdigits := hn.digits.symm.trans hm.digits
  have hsign := hn.sign.symm.trans hm.sign
  rw [decide_eq_decide] at hsign
  omega

/-- Every whole number is spelt by its decimal digits. -/
theorem spells_toDigits (n : Int) : Spells ⟨decide (n < 0),Nat.toDigits 10 n.natAbs,[],none⟩ n :=
  ⟨rfl,rfl,Nat.ofDigitChars_ten_toDigits,rfl⟩

/-- Exactly the whole numbers of at most 64 bits are kept as they are. -/
theorem toNumber?_eq_int {x : Numeral} {n : Int} : x.toNumber? = some (.int n) ↔
    x.Spells n ∧ -9223372036854775808 ≤ n ∧ n ≤ 18446744073709551615 := by
  have hfloat : x.toFloat?.map JsonNumber.float ≠ some (.int n) := by
    cases x.toFloat? <;> simp
  have hmin : Int64.minValue.toInt = -9223372036854775808 := rfl
  have hsize : UInt64.size = 18446744073709551616 := rfl
  obtain ⟨negative,whole,fraction,exponent⟩ := x
  rw [toNumber?]
  dsimp only at hfloat ⊢
  constructor
  · intro h
    split at h
    · next hplain =>
      obtain ⟨rfl,hexponent⟩ := hplain
      obtain rfl := Option.isNone_iff_eq_none.mp hexponent
      split at h
      · next hn =>
        obtain ⟨hsign,hlt⟩ := hn
        obtain rfl := JsonNumber.int.inj (Option.some.inj h)
        refine ⟨⟨rfl,rfl,rfl,?_⟩,by omega,by omega⟩
        rw [show negative = false by simpa using hsign]
        exact (decide_eq_false (by omega)).symm
      · split at h
        · next hn =>
          obtain ⟨hsign,hpos,hle⟩ := hn
          obtain rfl := JsonNumber.int.inj (Option.some.inj h)
          refine ⟨⟨rfl,rfl,by rw [Int.natAbs_neg]; rfl,?_⟩,by omega,by omega⟩
          rw [show negative = true from hsign]
          exact (decide_eq_true (by omega)).symm
        · exact absurd h hfloat
    · exact absurd h hfloat
  · -- A minus sign goes with a number below zero only, so the two ranges do not meet.
    rintro ⟨⟨rfl,rfl,hdigits,rfl⟩,hlow,hhigh⟩
    dsimp only at hdigits
    rw [if_pos ⟨rfl,rfl⟩,hdigits]
    by_cases hn : n < 0
    · rw [if_neg (by simp [hn]),if_pos ⟨decide_eq_true hn,by omega,by omega⟩]
      congr 2
      omega
    · rw [if_pos ⟨by simpa using hn,by omega⟩]
      congr 2
      omega

end Numeral

namespace Entity

private theorem decodeOsmId_numeral {o : Origin} {x : Numeral} {t : String} :
    decodeOsmId o (.number x.toNumber?) = .ok t ↔ ∃ n : Int, x.Spells n ∧
      (-9223372036854775808 ≤ n ∧ n ≤ 18446744073709551615) ∧ t = toString n := by
  constructor
  · intro h
    cases hx : x.toNumber? with
    | none => rw [hx] at h; cases h
    | some m =>
      rw [hx] at h
      cases m with
      | float _ => cases h
      | int n =>
        obtain ⟨hspells,hrange⟩ := Numeral.toNumber?_eq_int.mp hx
        exact ⟨n,hspells,hrange,(Except.ok.inj h).symm⟩
  · rintro ⟨n,hspells,hrange,rfl⟩
    rw [Numeral.toNumber?_eq_int.mpr ⟨hspells,hrange⟩]
    rfl

variable {o : Origin} {deep whole : Bool} {x : Numeral} {r : Entity}

def osmIdColumn : Column Entity :=
  .ofField "osm_id" .required (·.osmId) (fun v r => { r with osmId := v }) .string decodeOsmId

private theorem column?_osmId : (Row.schema : Schema Entity).column? "osm_id" = some osmIdColumn := rfl

/-- An object that gives the map identifier as a numeral is read only if that is such a number, which is then
the identifier. -/
theorem osmId_of_decode {members : List (Option String × Doc)}
    (h : Row.decode o (.object deep members whole) = .ok r) (hmem : (some "osm_id",.number x.toNumber?) ∈ members) :
    ∃ n : Int, x.Spells n ∧ (-9223372036854775808 ≤ n ∧ n ≤ 18446744073709551615) ∧ r.osmId = toString n := by
  obtain ⟨_,hmakes,_⟩ := (Schema.decode_object_iff separate trivial).mp h
  obtain ⟨f,hf,hfr⟩ := hmakes.held _ _ hmem _ column?_osmId
  obtain ⟨t,ht,rfl⟩ := Column.read_ofField hf
  obtain ⟨n,hspells,hrange,rfl⟩ := decodeOsmId_numeral.mp ht
  have hwrite : Json.string (toString n) = .string r.osmId := hfr r
  exact ⟨n,hspells,hrange,(Json.string.inj hwrite).symm⟩

private theorem decode_osmId_text {n : Int} (hspells : x.Spells n)
    (hrange : -9223372036854775808 ≤ n ∧ n ≤ 18446744073709551615) (l m : List (Option String × Doc)) :
    (Row.decode : Decoder Entity) o (.object deep (l ++ (some "osm_id",.number x.toNumber?)::m) whole) =
      Row.decode o (.object deep (l ++ (some "osm_id",.string (some (toString n)))::m) whole) := by
  have hread : ∀ c : Column Entity, (Row.schema : Schema Entity).column? "osm_id" = some c →
      c.read o (.number x.toNumber?) = c.read o (.string (some (toString n))) := by
    intro c hc
    cases column?_osmId.symm.trans hc
    rw [Numeral.toNumber?_eq_int.mpr ⟨hspells,hrange⟩]
    rfl
  simp only [Row.decode,Schema.decode,Schema.readMembers_congr hread rfl]

end Entity

/-! ### Nothing is lost -/

/-- A table's rows are read again as what is said of them, and an object is read as the row that it spells. -/
structure Spelling.Faithful {R : Type} [Row R] (p : Spelling R) (said : R → R) : Prop where
  again : ∀ r : R, Decoder.ofJson Row.decode (Row.toJson r) = .ok (said r)
  objects : ∀ members (r : R), Decoder.ofJson Row.decode (.object members) = .ok r ↔ p.Spells members r
  /-- An object that is read and written anew still says the same. -/
  anew : ∀ members (r : R), p.Spells members r → Decoder.ofJson Row.decode (Row.toJson r) = .ok r

private theorem Spelling.faithful {R : Type} [Row R] {p : Spelling R} {Sound : R → Prop} {said : R → R}
    (hsep : (Row.schema : Schema R).SeparateOn Sound) (hopen : (Row.schema : Schema R).closed = false)
    (hp : p.Fits Row.schema Sound) (hsound : ∀ r, Sound (said r)) (hsaid : ∀ r, Row.toJson (said r) = Row.toJson r) :
    p.Faithful said where
  again r := by
    rw [← hsaid r]
    exact Schema.decode_encode hsep (hsound r)
  objects _ _ := Spelling.decode_iff hsep hopen hp
  anew members r h := Schema.decode_encode hsep (hp.sound members r h)

/-- A task event with the time that its text denotes. -/
def TaskEvent.said (r : TaskEvent) : TaskEvent := { r with createdAt := r.createdAt.spoken }

private theorem TaskEvent.toJson_said (r : TaskEvent) : Row.toJson r.said = Row.toJson r := by
  have htext := r.createdAt.toText_spoken
  simp only [Row.toJson,Row.schema,Schema.encode,columns,Column.ofField,List.map_cons,List.map_nil,said,htext]

private theorem TaskEvent.said_eq_self {r : TaskEvent} : r.said = r ↔ r.createdAt.Regular := by
  rw [← Time.Instant.spoken_eq_self]
  exact ⟨fun h => congrArg TaskEvent.createdAt h,fun h => by rw [said,h]⟩

/-- Entities and task events are read as they were written, and their objects exactly as they are spelt: whatever
else stands in them and in whatever order, with the columns left out that may be, with a map identifier given as a
number, and with a time given with any offset. Only a time whose nanoseconds pass a whole second elsewhere than at
the end of a minute is read as that of the next second. In a text as in a value, an identifier that is given as a
numeral is the decimal text of a whole number of at most 64 bits, as which it might have been given, or the object is
refused. -/
theorem Row.codec_faithful :
    Entity.spelling.Faithful id ∧ TaskEvent.spelling.Faithful TaskEvent.said ∧
    (∀ r : TaskEvent, r.said = r ↔ (1000000000 ≤ r.createdAt.nano → r.createdAt.second % 60 = 59)) ∧
    (∀ o deep whole l m (x : Numeral) (n : Int), x.Spells n →
      -9223372036854775808 ≤ n ∧ n ≤ 18446744073709551615 →
      (Row.decode : Decoder Entity) o (.object deep (l ++ (some "osm_id",.number x.toNumber?)::m) whole) =
        Row.decode o (.object deep (l ++ (some "osm_id",.string (some (toString n)))::m) whole)) ∧
    ∀ o deep whole members (x : Numeral) (r : Entity), Row.decode o (.object deep members whole) = .ok r →
      (some "osm_id",.number x.toNumber?) ∈ members →
      ∃ n : Int, x.Spells n ∧ (-9223372036854775808 ≤ n ∧ n ≤ 18446744073709551615) ∧ r.osmId = toString n := by
  refine ⟨?_,?_,fun r => TaskEvent.said_eq_self,?_,?_⟩
  · exact Spelling.faithful Entity.separate rfl Entity.spelling_fits (fun _ => trivial) (fun _ => rfl)
  · exact Spelling.faithful TaskEvent.separate rfl TaskEvent.spelling_fits (fun r => r.createdAt.regular_spoken)
      TaskEvent.toJson_said
  · exact fun o deep whole l m x n hspells hrange => Entity.decode_osmId_text hspells hrange l m
  · exact fun o deep whole members x r hdecode hmem => Entity.osmId_of_decode hdecode hmem

/-- A task event as another program may write it: out of order, with a column that is none of its own, without
those that may be left out, and at a leap second by the clock of another place. -/
def TaskEvent.foreign : List (String × Json) := [("username",.string "kai"),("colour",.string "red"),
  ("created_at",.string "2017-01-01T05:29:60.5+05:30"),("event",.object [("FINISH",.null)]),("task_id",.int (-3)),
  ("status",.string "UNLOCKED_TO_VALIDATE"),("project_id",.int 7),("event_id",.string "e1")]

def TaskEvent.foreignRead : TaskEvent where
  eventId := "e1"
  event := .finish
  projectId := 7
  taskId := -3
  comment := none
  createdAt := ⟨17166,86399,1500000000,by decide,by decide,by decide⟩
  username := "kai"
  profileImg := none
  status := .unlockedToValidate

/-- An entity's object in which the map identifier is a numeral. -/
def Entity.numbered (x : Numeral) : Doc := .object false ([(some "entity_id",.string (some "E1")),
  (some "status",.string (some "READY")),(some "project_id",.number (some (.int 1)))] ++
  (some "osm_id",.number x.toNumber?)::[(some "task_id",.number (some (.int 2)))]) true

/-- The foreign event is read, and written anew by the time of Greenwich it is read again. The greatest number of
64 bits is a map identifier, and the next one is none. -/
theorem Row.codec_faithful_foreign :
    (Decoder.ofJson Row.decode (.object TaskEvent.foreign) = .ok TaskEvent.foreignRead ∧
      TaskEvent.foreignRead.createdAt.toText = "2016-12-31T23:59:60.500Z" ∧
      Decoder.ofJson Row.decode (Row.toJson TaskEvent.foreignRead) = .ok TaskEvent.foreignRead) ∧
    Row.decode .text (Entity.numbered ⟨false,Nat.toDigits 10 18446744073709551615,[],none⟩) =
      .ok (⟨"E1",.ready,1,2,"18446744073709551615",[],none,none⟩ : Entity) ∧
    ¬∃ r : Entity, Row.decode .text (Entity.numbered ⟨false,Nat.toDigits 10 18446744073709551616,[],none⟩) =
      .ok r := by
  obtain ⟨_,hevents,_,htext,hnumber⟩ := Row.codec_faithful
  have hread : Decoder.ofJson Row.decode (.object TaskEvent.foreign) = .ok TaskEvent.foreignRead := by
    decide +kernel
  refine ⟨⟨hread,by decide +kernel,hevents.anew _ _ ((hevents.objects _ _).mp hread)⟩,?_,?_⟩
  · exact (htext _ _ _ _ _ _ _ (Numeral.spells_toDigits 18446744073709551615) (by decide)).trans
      (by decide +kernel)
  · rintro ⟨r,hr⟩
    obtain ⟨n,hspells,⟨_,hhigh⟩,_⟩ := hnumber _ _ _ _ _ r hr
      (List.mem_append_right _ List.mem_cons_self)
    have hn : n = 18446744073709551616 := hspells.inj (Numeral.spells_toDigits 18446744073709551616)
    omega

/-- A task event with a second and a third of another after half a minute. -/
def TaskEvent.leaping : TaskEvent :=
  { blank with createdAt :=
    { Time.Instant.start with second := 30, nano := 1333333333, second_lt := by omega, nano_lt := by omega } }

/-- Its time is written as that of the next second, and not read again. Zero with a sign is no map identifier, though
its digits are those of zero. -/
theorem Row.codec_not_faithful_leaping :
    Decoder.ofJson Row.decode (Row.toJson TaskEvent.leaping) ≠ .ok TaskEvent.leaping ∧
    TaskEvent.leaping.createdAt.toText = "1970-01-01T00:00:31.333333333Z" ∧
    ∀ r : Entity, Row.decode .text (Entity.numbered ⟨true,['0'],[],none⟩) ≠ .ok r := by
  refine ⟨by decide +kernel,by decide +kernel,?_⟩
  intro r hr
  obtain ⟨n,hspells,_,_⟩ := Entity.osmId_of_decode hr (List.mem_append_right _ List.mem_cons_self)
  have hzero : n.natAbs = 0 := hspells.digits.symm
  have hnegative : n < 0 := of_decide_eq_true hspells.sign.symm
  omega

end FieldReplica
