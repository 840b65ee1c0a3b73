import FieldReplica.Http.Rows
import FieldReplica.Proofs.Acceptance
import FieldReplica.Row.Entity
import FieldReplica.Row.TaskEvent

/-!
# The addresses of rows

A row is written under a key that stands in the query of the request, and read under a key that stands at the end of its
path. A server that decodes both finds the same key if it is a plain name. The name of a dot segment is passed over,
so that the table itself is asked for, and tabs and line ends are left out, so that another row is.
-/
namespace FieldReplica.Http

open Url

/-- What a server reads from the last segment of a request's path. -/
def Request.lastName? (r : Request) : Option String :=
  (splitLast? '/' r.url.path.toChars).bind fun (_,last) => Text.Utf8.decode? (decodeOctets last)

namespace Api

/-- The key that a server reads from the address of a table's row. -/
def readAs (table key : String) : String :=
  if isSkipped key then table
  else if kept key = ['.','.'] ∨ kept key = ['.'] then ""
  else String.ofList (kept key)

private theorem readAs_eq_iff {table key : String} (htable : Plain table) : readAs table key = key ↔ Plain key := by
  rw [readAs]
  split
  · next hskip =>
    rw [isSkipped,Bool.or_eq_true,decide_eq_true_eq,decide_eq_true_eq] at hskip
    constructor
    · intro h
      rw [h] at htable
      exact htable
    · intro h
      exact absurd hskip (not_or.mpr ⟨h.point,h.points⟩)
  · next hskip =>
    rw [isSkipped,Bool.or_eq_true,decide_eq_true_eq,decide_eq_true_eq,not_or] at hskip
    split
    · next hdots =>
      refine iff_of_false (fun h => ?_) (fun h => ?_)
      · rw [← h] at hdots
        rcases hdots with hdots | hdots <;> cases hdots
      · rw [kept_eq_iff.mpr h.whole] at hdots
        rcases hdots with hdots | hdots
        · exact h.points (String.toList_inj.mp hdots)
        · exact h.point (String.toList_inj.mp hdots)
    · rw [← String.toList_inj,String.toList_ofList,kept_eq_iff]
      exact ⟨fun h => ⟨hskip.1,hskip.2,h⟩,Plain.whole⟩

end Api

private theorem splitLast?_append {sep : Char} {last : List Char} (h : sep ∉ last) (front : List Char) :
    splitLast? sep (front ++ sep::last) = some (front,last) := by
  have hstop : ∀ c ∈ last.reverse, decide (c ≠ sep) = true := by
    intro c hc
    exact decide_eq_true fun he => h (he ▸ List.mem_reverse.mp hc)
  rw [splitLast?,if_pos (by simp)]
  simp only [List.reverse_append,List.reverse_cons,List.append_assoc]
  rw [List.takeWhile_append_of_pos hstop,List.dropWhile_append_of_pos hstop]
  simp

private theorem toChars_append (segs : List (List Char)) (last : List Char) :
    (Path.segments (segs ++ [last])).toChars = (Path.segments segs).toChars ++ '/'::last := by
  simp [Path.toChars]

private theorem slash_not_mem_encode {set : EncodeSet} (hset : set.Segments) (cs : List Char) : '/' ∉ encode set cs :=
  not_mem_encode hset.slash (by decide) (by decide) cs

theorem encode_ne_nil {set : EncodeSet} (hset : set.Segments) {name : String} (h : name ≠ "") :
    encode set name.toList ≠ [] := by
  intro he
  have hempty : name.toList = [] := encode_injective hset.percent he
  exact h (String.toList_inj.mp hempty)

variable {set : EncodeSet} {table : String}

/-- A path that ends in a table is not the bare slash. -/
theorem append_table_ne (hset : set.Segments) (hne : table ≠ "") (front : List (List Char)) :
    front ++ [encode set table.toList] ≠ [[]] := by
  intro he
  rcases List.append_eq_singleton_iff.mp he with ⟨-,h⟩ | ⟨-,h⟩
  · exact encode_ne_nil hset hne (List.cons.inj h).1
  · cases h

private theorem exists_last_of_key (hset : set.Segments) (hne : table ≠ "") (front : List (List Char)) (key : String) :
    ∃ init last, pushSegment set (front ++ [encode set table.toList]) key.toList = init ++ [last] ∧ '/' ∉ last ∧
      Text.Utf8.decode? (decodeOctets last) = some (Api.readAs table key) := by
  have hread : ∀ cs, Text.Utf8.decode? (decodeOctets (encode set cs)) = some (String.ofList cs) :=
    decode?_encode hset.percent
  rw [pushSegment_eq hset,Api.readAs,if_neg (append_table_ne hset hne front)]
  split
  · exact ⟨_,_,rfl,slash_not_mem_encode hset _,by rw [hread,String.ofList_toList]⟩
  · dsimp only
    split
    · next hpoints => exact ⟨_,_,rfl,List.not_mem_nil,by rw [if_pos (.inl hpoints)]; exact hread []⟩
    · next hpoints =>
      split
      · next hpoint => exact ⟨_,_,rfl,List.not_mem_nil,by rw [if_pos (.inr hpoint)]; exact hread []⟩
      · next hpoint =>
        exact ⟨_,_,rfl,slash_not_mem_encode hset _,by rw [if_neg (not_or.mpr ⟨hpoints,hpoint⟩),hread]⟩

namespace Api

variable {api : Api} {segs : List (List Char)}

theorem tableUrl_of_segments (hpath : api.base.path = .segments segs) (names : List String) : api.tableUrl names =
    .ok { api.base with path := .segments (pushAll api.base.segmentSet (dropEmptyEnd segs) names) } := by
  rw [tableUrl,endpoint,endpoint?_of_segments hpath]

variable (R : Type) [Row R]

/-- The table's name stands for itself as a segment. -/
structure NamesSegment : Prop where
  plain : Plain (Row.table R)
  ne : Row.table R ≠ ""

/-- How the rows of a table are addressed. -/
structure Addresses (api : Api) (project : Int64) : Prop where
  /-- A row is written under its key. -/
  write : ∀ (m : Mutation R) (key : String), (∃ changes, m = .update key changes) ∨ m = .delete key →
    ∃ r, api.submitRequest project m = .ok r ∧
      r.url.pairs = api.base.pairs ++ [projectPair project,(Row.keyField R,key)]
  /-- A row is read under the key that is left of its own. -/
  read : ∀ key, ∃ r, api.rowRequest R project key = .ok r ∧ r.url.pairs = api.base.pairs ++ [projectPair project] ∧
    r.lastName? = some (readAs (Row.table R) key)
  /-- That is its own key exactly if that is a plain name. -/
  agree : ∀ key r, api.rowRequest R project key = .ok r → (r.lastName? = some key ↔ Plain key)
  /-- The address of a plain key is one segment longer than that of the table. -/
  below : ∀ key r table, Plain key → api.rowRequest R project key = .ok r → api.tableUrl [Row.table R] = .ok table →
    ∃ segment, '/' ∉ segment ∧ r.url.path.toChars = table.path.toChars ++ '/'::segment
  /-- Different plain keys have different addresses. -/
  apart : ∀ key key' r r', Plain key → Plain key' → api.rowRequest R project key = .ok r →
    api.rowRequest R project key' = .ok r' → r.target = r'.target → key = key'

variable {R}

private theorem rowRequest_of_segments (hR : NamesSegment R) (hpath : api.base.path = .segments segs) (project : Int64)
    (key : String) : api.rowRequest R project key = .ok ⟨.get,
      { api.base with path := .segments (pushSegment api.base.segmentSet
        (stem segs ++ [encode api.base.segmentSet (Row.table R).toList]) key.toList) }.withPairs [projectPair project],
      api.token,none⟩ := by
  rw [rowRequest,tableUrl_of_segments hpath,pushAll_cons_of_plain (segments_segmentSet _) _ hR.plain]
  rfl

private theorem lastName?_of_path {r : Request} {init : List (List Char)} {last : List Char}
    (hpath : r.url.path = .segments (init ++ [last])) (hslash : '/' ∉ last) :
    r.lastName? = Text.Utf8.decode? (decodeOctets last) := by
  rw [Request.lastName?,hpath,toChars_append,splitLast?_append hslash,Option.bind_some]

private theorem read_of_segments (hR : NamesSegment R) (hpath : api.base.path = .segments segs) (project : Int64)
    (key : String)
    {r : Request} (h : api.rowRequest R project key = .ok r) :
    r.url.pairs = api.base.pairs ++ [projectPair project] ∧ r.lastName? = some (readAs (Row.table R) key) := by
  rw [rowRequest_of_segments hR hpath] at h
  obtain rfl := Except.ok.inj h
  obtain ⟨init,last,hlast,hslash,hread⟩ :=
    exists_last_of_key (segments_segmentSet api.base) hR.ne (stem segs) key
  exact ⟨pairs_withPairs _ _,(lastName?_of_path (congrArg _ hlast) hslash).trans hread⟩

private theorem path_of_plain (hR : NamesSegment R) (hpath : api.base.path = .segments segs) (project : Int64)
    {key : String}
    (hkey : Plain key) {r : Request} (h : api.rowRequest R project key = .ok r) :
    r = ⟨.get,{ api.base with path := .segments (stem segs ++ [encode api.base.segmentSet (Row.table R).toList] ++
      [encode api.base.segmentSet key.toList]) }.withPairs [projectPair project],api.token,none⟩ := by
  have hset := segments_segmentSet api.base
  rw [rowRequest_of_segments hR hpath,pushSegment_of_plain hset _ hkey,if_neg (append_table_ne hset hR.ne _)] at h
  exact (Except.ok.inj h).symm

private theorem path_of_toText {u : Url} {p q : Path} (h : { u with path := p }.toText = { u with path := q }.toText) :
    p.toChars = q.toChars := by
  have hchars : { u with path := p }.toChars = { u with path := q }.toChars := String.ofList_injective h
  rw [toChars,toChars] at hchars
  exact List.append_cancel_left (List.append_cancel_right (List.append_cancel_right hchars))

private theorem addresses_of_segments (hR : NamesSegment R) (hpath : api.base.path = .segments segs) (project : Int64) :
    Addresses R api project where
  write m key hm := by
    have htable : api.tableUrl [Row.table R] = .ok _ := tableUrl_of_segments hpath _
    rcases hm with ⟨changes,rfl⟩ | rfl
    · exact ⟨_,by rw [submitRequest,htable]; rfl,pairs_withPairs _ _⟩
    · exact ⟨_,by rw [submitRequest,htable]; rfl,pairs_withPairs _ _⟩
  read key := by
    have hread := rowRequest_of_segments hR hpath project key
    exact ⟨_,hread,read_of_segments hR hpath project key hread⟩
  agree key r h := by
    rw [(read_of_segments hR hpath project key h).2,Option.some.injEq,readAs_eq_iff hR.plain]
  below key r table hkey hr htable := by
    have hset := segments_segmentSet api.base
    rw [tableUrl_of_segments hpath,pushAll_cons_of_plain hset _ hR.plain] at htable
    rw [path_of_plain hR hpath project hkey hr,← Except.ok.inj htable]
    exact ⟨_,slash_not_mem_encode hset key.toList,toChars_append _ _⟩
  apart key key' r r' hkey hkey' hr hr' htarget := by
    have hset := segments_segmentSet api.base
    rw [path_of_plain hR hpath project hkey hr,path_of_plain hR hpath project hkey' hr'] at htarget
    have hchars := path_of_toText (u := { api.base.withPairs [projectPair project] with
      userinfo := [], fragment := none }) (p := .segments _) (q := .segments _) htarget
    rw [toChars_append _ (encode _ key.toList),toChars_append _ (encode _ key'.toList)] at hchars
    have hkeys := List.append_cancel_left hchars
    exact String.toList_inj.mp (encode_injective hset.percent (List.cons.inj hkeys).2)

private theorem namesSegment_entity : NamesSegment Entity where
  plain := by decide
  ne := by decide

private theorem namesSegment_taskEvent : NamesSegment TaskEvent where
  plain := by decide
  ne := by decide

/-- Below every accepted address the rows of both tables are written and read under the same keys, as far as these are
plain names: a read of any other key asks for the table or for another row. -/
theorem addresses_of_accepted {s : String} {base : Url} (h : parseSecure s = .ok base) (token : Option String)
    (project : Int64) : Addresses Entity ⟨base,token⟩ project ∧ Addresses TaskEvent ⟨base,token⟩ project := by
  obtain ⟨-,segs,-,hpath⟩ := accepted h
  exact ⟨addresses_of_segments namesSegment_entity hpath project,
    addresses_of_segments namesSegment_taskEvent hpath project⟩

/-- An address of the machine itself, as it is read. -/
def home : Url where
  scheme := "http".toList
  userinfo := []
  host := some (.ipv4 2130706433)
  port := some 8000
  path := .segments ["api".toList]
  query := none
  fragment := none

theorem parseSecure_home : parseSecure "http://127.1:8000/api" = .ok home := by
  decide +kernel

/-- A key with slashes, points, a blank and a percent sign is read as it is. -/
theorem addresses_of_accepted_home : ∃ r : Request, rowRequest Entity ⟨home,none⟩ 7 "../a b%2F" = .ok r ∧
    r.lastName? = some "../a b%2F" := by
  obtain ⟨hentity,-⟩ := addresses_of_accepted parseSecure_home none 7
  obtain ⟨r,hr,-,-⟩ := hentity.read "../a b%2F"
  exact ⟨r,hr,(hentity.agree _ r hr).mpr (by decide)⟩

/-- Below an accepted address a row whose key has a tab in it is deleted under its key, but a read of it asks for another
row; and a read of the row whose key is a point asks for the table. -/
theorem strayKeys_misread : parseSecure "http://127.1:8000/api" = .ok home ∧
    (∃ w r, submitRequest (R := Entity) ⟨home,none⟩ 7 (.delete "E\t1") = .ok w ∧
      w.url.pairs = [("project_id","7"),("entity_id","E\t1")] ∧ rowRequest Entity ⟨home,none⟩ 7 "E\t1" = .ok r ∧
      r.target = "http://127.0.0.1:8000/api/odk_entities/E1?project_id=7" ∧ r.lastName? = some "E1") ∧
    ∃ r t, rowRequest Entity ⟨home,none⟩ 7 "." = .ok r ∧ tableUrl ⟨home,none⟩ ["odk_entities"] = .ok t ∧
      r.url.path = t.path := by
  have hentity : Addresses Entity ⟨home,none⟩ 7 := addresses_of_segments namesSegment_entity rfl 7
  refine ⟨parseSecure_home,?_,?_⟩
  · obtain ⟨w,hw,hwrite⟩ := hentity.write (.delete "E\t1") "E\t1" (.inr rfl)
    obtain ⟨r,hr,-,hread⟩ := hentity.read "E\t1"
    refine ⟨w,r,hw,hwrite,hr,?_,hread⟩
    cases hr
    decide +kernel
  · refine ⟨_,_,rfl,rfl,?_⟩
    decide +kernel

end Api
end FieldReplica.Http
