import FieldReplica.Proofs.Escapes
import FieldReplica.Proofs.Search
import FieldReplica.Url.Endpoint

/-!
# Paths below a base

A name that is put at the end of a path becomes one segment that stands for it, unless it is the name of a dot segment
or has a character that is left out. Names without those keep the path that they are added to; a name that is left
with two points takes away the segment before it.
-/
namespace FieldReplica.Url

/-! ### Dot segments -/

private theorem toLower_eq_e {x : Char} (h : x.toLower = 'e') : x = 'e' ∨ x = 'E' := by
  by_cases hx : x.val ≥ 'A'.val ∧ x.val ≤ 'Z'.val
  · right
    have hcapital : x.toLower = ⟨x.val + ('a'.val - 'A'.val),_⟩ := dif_pos hx
    rw [hcapital] at h
    have hval : (x.val + ('a'.val - 'A'.val)).toNat = 101 := congrArg Char.toNat h
    have hhigh : x.val.toNat ≤ 90 := UInt32.le_iff_toNat_le.mp hx.2
    have hstep : ('a'.val - 'A'.val).toNat = 32 := by decide
    rw [UInt32.toNat_add,hstep] at hval
    refine Char.ext (UInt32.toNat_inj.mp (?_ : x.val.toNat = 69))
    omega
  · left
    have hplain : x.toLower = x := dif_neg hx
    exact hplain.symm.trans h

private theorem decodeOctets_of_point {cs rest : List Char} (h : cs.map Char.toLower = '.'::rest) :
    ∃ ds, ds.map Char.toLower = rest ∧ decodeOctets cs = 0x2E::decodeOctets ds := by
  obtain ⟨c,ds,rfl,hc,hds⟩ := List.map_eq_cons_iff.mp h
  obtain rfl := (Text.toLower_eq_iff (by decide) c).mp hc
  exact ⟨ds,hds,decodeOctets_cons_of_ne (by decide) ds⟩

private theorem decodeOctets_of_escape {cs rest : List Char} (h : cs.map Char.toLower = '%' :: '2' :: 'e' :: rest) :
    ∃ ds, ds.map Char.toLower = rest ∧ decodeOctets cs = 0x2E::decodeOctets ds := by
  obtain ⟨a,as,rfl,ha,h⟩ := List.map_eq_cons_iff.mp h
  obtain ⟨b,bs,rfl,hb,h⟩ := List.map_eq_cons_iff.mp h
  obtain ⟨c,ds,rfl,hc,hds⟩ := List.map_eq_cons_iff.mp h
  obtain rfl := (Text.toLower_eq_iff (by decide) a).mp ha
  obtain rfl := (Text.toLower_eq_iff (by decide) b).mp hb
  refine ⟨ds,hds,?_⟩
  rcases toLower_eq_e hc with rfl | rfl <;> rfl

private theorem decodeOctets_of_map_nil {cs : List Char} (h : cs.map Char.toLower = []) : decodeOctets cs = [] := by
  rw [List.map_eq_nil_iff.mp h,decodeOctets]

private theorem decodeOctets_of_isSingleDot {cs : List Char} (h : isSingleDot cs = true) : decodeOctets cs =
    [0x2E] := by
  simp only [isSingleDot,Bool.or_eq_true,decide_eq_true_eq,← String.toList_inj,String.toList_ofList] at h
  rcases h with h | h
  · obtain ⟨ds,hds,hcs⟩ := decodeOctets_of_point h
    rw [hcs,decodeOctets_of_map_nil hds]
  · obtain ⟨ds,hds,hcs⟩ := decodeOctets_of_escape h
    rw [hcs,decodeOctets_of_map_nil hds]

private theorem decodeOctets_of_isDoubleDot {cs : List Char} (h : isDoubleDot cs = true) :
    decodeOctets cs = [0x2E,0x2E] := by
  simp only [isDoubleDot,Bool.or_eq_true,decide_eq_true_eq,← String.toList_inj,String.toList_ofList] at h
  rcases h with ((h | h) | h) | h
  · obtain ⟨ds,hds,hcs⟩ := decodeOctets_of_point h
    obtain ⟨es,hes,hds⟩ := decodeOctets_of_point hds
    rw [hcs,hds,decodeOctets_of_map_nil hes]
  · obtain ⟨ds,hds,hcs⟩ := decodeOctets_of_point h
    obtain ⟨es,hes,hds⟩ := decodeOctets_of_escape hds
    rw [hcs,hds,decodeOctets_of_map_nil hes]
  · obtain ⟨ds,hds,hcs⟩ := decodeOctets_of_escape h
    obtain ⟨es,hes,hds⟩ := decodeOctets_of_point hds
    rw [hcs,hds,decodeOctets_of_map_nil hes]
  · obtain ⟨ds,hds,hcs⟩ := decodeOctets_of_escape h
    obtain ⟨es,hes,hds⟩ := decodeOctets_of_escape hds
    rw [hcs,hds,decodeOctets_of_map_nil hes]

/-- What a set has to encode, and what it has to leave, for segments to stay what they are. -/
structure EncodeSet.Segments (set : EncodeSet) : Prop where
  percent : set.has '%' = true
  slash : set.has '/' = true
  point : set.has '.' = false

theorem segments_segmentSet (u : Url) : u.segmentSet.Segments := by
  rw [segmentSet]
  split <;> exact ⟨rfl,rfl,rfl⟩

variable {set : EncodeSet} {cs : List Char}

private theorem isSingleDot_encode (hset : set.Segments) : isSingleDot (encode set cs) = true ↔ cs = ['.'] := by
  constructor
  · intro h
    have hpoint : Text.Utf8.decode? [0x2E] = some (String.ofList ['.']) := Text.Utf8.decode?_encode "."
    rw [← decodeOctets_of_isSingleDot h,decode?_encode hset.percent cs] at hpoint
    exact String.ofList_injective (Option.some.inj hpoint)
  · rintro rfl
    simp [encode,encodeChar,hset.point]
    rfl

private theorem isDoubleDot_encode (hset : set.Segments) : isDoubleDot (encode set cs) = true ↔ cs = ['.','.'] := by
  constructor
  · intro h
    have hpoints : Text.Utf8.decode? [0x2E,0x2E] = some (String.ofList ['.','.']) := Text.Utf8.decode?_encode ".."
    rw [← decodeOctets_of_isDoubleDot h,decode?_encode hset.percent cs] at hpoints
    exact String.ofList_injective (Option.some.inj hpoints)
  · rintro rfl
    simp [encode,encodeChar,hset.point]
    rfl

/-! ### Names -/

/-- The characters of a name that are not left out. -/
def kept (name : String) : List Char := name.toList.filter (!isDropped ·)

/-- A name that is passed over. -/
def isSkipped (name : String) : Bool := name = "." || name = ".."

/-- A name that stands for itself as a segment: it is that of no dot segment, and no character of it is left out. -/
structure Plain (name : String) : Prop where
  point : name ≠ "."
  points : name ≠ ".."
  whole : ∀ c ∈ name.toList, isDropped c = false

private theorem plain_iff {name : String} :
    Plain name ↔ name ≠ "." ∧ name ≠ ".." ∧ name.toList.all (fun c => !isDropped c) = true := by
  simp only [List.all_eq_true,Bool.not_eq_true']
  exact ⟨fun h => ⟨h.point,h.points,h.whole⟩,fun h => ⟨h.1,h.2.1,h.2.2⟩⟩

instance (name : String) : Decidable (Plain name) := decidable_of_iff' _ plain_iff

theorem kept_eq_iff {name : String} : kept name = name.toList ↔ ∀ c ∈ name.toList, isDropped c = false := by
  rw [kept,List.filter_eq_self]
  simp

/-- What becomes of a path when a name is put at its end. -/
theorem pushSegment_eq (hset : set.Segments) (segs : List (List Char)) (name : String) :
    pushSegment set segs name.toList =
      if isSkipped name then segs
      else
        let front := if segs = [[]] then [] else segs
        if kept name = ['.','.'] then front.dropLast ++ [[]]
        else if kept name = ['.'] then front ++ [[]]
        else front ++ [encode set (kept name)] := by
  have hskip : (name.toList = ['.'] ∨ name.toList = ['.','.']) ↔ isSkipped name = true := by
    rw [isSkipped,Bool.or_eq_true,decide_eq_true_eq,decide_eq_true_eq,← String.toList_inj,← String.toList_inj]
    rfl
  rw [pushSegment,resolveDots]
  simp only [hskip,isDoubleDot_encode hset,isSingleDot_encode hset,kept]
  rfl

private theorem pushSegment_of_skipped {name : String} (h : isSkipped name = true) (segs : List (List Char)) :
    pushSegment set segs name.toList = segs := by
  rw [isSkipped,Bool.or_eq_true,decide_eq_true_eq,decide_eq_true_eq] at h
  rw [pushSegment,if_pos]
  rcases h with rfl | rfl
  · exact .inl rfl
  · exact .inr rfl

/-- A plain name is put at the end of a path. -/
theorem pushSegment_of_plain (hset : set.Segments) (segs : List (List Char)) {name : String} (h : Plain name) :
    pushSegment set segs name.toList = (if segs = [[]] then [] else segs) ++ [encode set name.toList] := by
  have hskip : isSkipped name = false := by simp [isSkipped,h.point,h.points]
  have hkept := kept_eq_iff.mpr h.whole
  have hpoint : name.toList ≠ ['.'] := fun he => h.point (String.toList_inj.mp he)
  have hpoints : name.toList ≠ ['.','.'] := fun he => h.points (String.toList_inj.mp he)
  rw [pushSegment_eq hset,hskip,hkept]
  simp only [Bool.false_eq_true,if_false,if_neg hpoint,if_neg hpoints]

/-! ### Paths -/

/-- What names are put after: the path without an empty segment at its end, the bare slash being no segment at all. -/
def stem (segs : List (List Char)) : List (List Char) := if dropEmptyEnd segs = [[]] then [] else dropEmptyEnd segs

/-- At most one empty segment at the end of a path is not part of its stem, unless the path is two empty ones. -/
theorem stem_cases (segs : List (List Char)) : segs = stem segs ∨ segs = stem segs ++ [[]] ∨ segs = [[],[]] := by
  rw [stem,dropEmptyEnd]
  split
  · next hend =>
    have hsegs := List.dropLast_append_getLast? [] hend.2
    split
    · next h =>
      rw [h] at hsegs
      exact .inr (.inr hsegs.symm)
    · exact .inr (.inl hsegs.symm)
  · split
    · next h => exact .inr (.inl h)
    · exact .inl rfl

/-- A path goes on from another one, of which an empty segment at the end need not count. -/
def Extends (path more : List (List Char)) : Prop := path <+: more ∨ ∃ front, path = front ++ [[]] ∧ front <+: more

theorem extends_stem {segs : List (List Char)} (h : segs ≠ [[],[]]) (more : List (List Char)) :
    Extends segs (stem segs ++ more) := by
  rcases stem_cases segs with hs | hs | hs
  · exact .inl (hs ▸ List.prefix_append _ _)
  · exact .inr ⟨_,hs,List.prefix_append _ _⟩
  · exact absurd hs h

def pushAll (set : EncodeSet) (segs : List (List Char)) (names : List String) : List (List Char) :=
  names.foldl (fun segs name => pushSegment set segs name.toList) segs

theorem endpoint?_of_segments {base : Url} {segs : List (List Char)} (h : base.path = .segments segs)
    (names : List String) : base.endpoint? names =
      some { base with path := .segments (pushAll base.segmentSet (dropEmptyEnd segs) names) } := by
  rw [endpoint?,h]
  rfl

/-- A path goes on from another one by at least one segment. -/
def Beyond (front path : List (List Char)) : Prop := ∃ more, more ≠ [] ∧ path = front ++ more

/-- Whatever is put at the end of a longer path, it stays beyond the shorter one. -/
theorem Beyond.push (hset : set.Segments) {front path : List (List Char)} (h : Beyond front path) (name : String) :
    Beyond front (pushSegment set path name.toList) := by
  obtain ⟨more,hmore,rfl⟩ := h
  have hpush : ∀ last, Beyond front ((if front ++ more = [[]] then [] else front ++ more) ++ [last]) := by
    intro last
    split
    · next he =>
      -- The bare slash lies beyond the empty path alone.
      rcases List.append_eq_singleton_iff.mp he with ⟨rfl,-⟩ | ⟨-,rfl⟩
      · exact ⟨_,List.cons_ne_nil _ _,rfl⟩
      · exact absurd rfl hmore
    · exact ⟨more ++ [last],by simp,by simp⟩
  rw [pushSegment_eq hset]
  split
  · exact ⟨more,hmore,rfl⟩
  · dsimp only
    split
    · split
      · next he =>
        rcases List.append_eq_singleton_iff.mp he with ⟨rfl,-⟩ | ⟨-,rfl⟩
        · exact ⟨_,List.cons_ne_nil _ _,rfl⟩
        · exact absurd rfl hmore
      · exact ⟨more.dropLast ++ [[]],by simp,by rw [List.dropLast_append_of_ne_nil hmore,List.append_assoc]⟩
    · split
      · exact hpush []
      · exact hpush _

theorem Beyond.pushAll (hset : set.Segments) {front path : List (List Char)} (h : Beyond front path)
    (names : List String) : Beyond front (pushAll set path names) := by
  induction names generalizing path with
  | nil => exact h
  | cons name names ih => exact ih (h.push hset name)

/-- The first name that counts takes a segment away. -/
def climbs : List String → Bool
  | [] => false
  | name::names => if isSkipped name then climbs names else kept name = ['.','.']

/-- Names keep the stem of the path that they are put after, if the first of them does. -/
theorem pushAll_stem (hset : set.Segments) (segs : List (List Char)) {names : List String} (h : climbs names = false) :
    ∃ more, pushAll set (dropEmptyEnd segs) names = stem segs ++ more := by
  induction names with
  | nil =>
    rw [stem]
    split
    · next he => exact ⟨[[]],he⟩
    · exact ⟨[],(List.append_nil _).symm⟩
  | cons name names ih =>
    rw [climbs] at h
    split at h
    · next hskip =>
      obtain ⟨more,hmore⟩ := ih h
      exact ⟨more,by rw [pushAll,List.foldl_cons,pushSegment_of_skipped hskip]; exact hmore⟩
    · next hskip =>
      have hfirst : Beyond (stem segs) (pushSegment set (dropEmptyEnd segs) name.toList) := by
        rw [pushSegment_eq hset,if_neg hskip,if_neg (of_decide_eq_false h)]
        split
        · exact ⟨_,List.cons_ne_nil _ _,rfl⟩
        · exact ⟨_,List.cons_ne_nil _ _,rfl⟩
      obtain ⟨more,-,hmore⟩ := hfirst.pushAll hset names
      exact ⟨more,hmore⟩

/-- A plain name goes right after the stem, and all others after it. -/
theorem pushAll_cons_of_plain (hset : set.Segments) (segs : List (List Char)) {name : String} (h : Plain name)
    (names : List String) : pushAll set (dropEmptyEnd segs) (name::names) =
      pushAll set (stem segs ++ [encode set name.toList]) names := by
  rw [pushAll,List.foldl_cons,pushSegment_of_plain hset _ h]
  rfl

end FieldReplica.Url
