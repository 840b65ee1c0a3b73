import FieldReplica.Http.Shape
import FieldReplica.Proofs.RowAddresses

/-!
# Where requests go

All requests go to the server of the accepted address, which is the machine itself if they are not encrypted. They stay
below its path, as long as the first segment that is put at its end is not left with two points, and the path is not
two empty segments, which are both lost. The first segment of every request is a name of its own, so that no key and
no handle leads out of the path.
-/
namespace FieldReplica

namespace Url

/-- Two addresses of one server, asked for by one user. -/
structure SameOrigin (u v : Url) : Prop where
  scheme : u.scheme = v.scheme
  userinfo : u.userinfo = v.userinfo
  host : u.host = v.host
  port : u.port = v.port

private theorem Private.of_sameOrigin {u v : Url} (h : Private u) (huv : SameOrigin u v) : Private v := by
  cases h with
  | encrypted hs => exact .encrypted (huv.scheme ▸ hs)
  | name hs hh ht => exact .name (huv.scheme ▸ hs) (huv.host ▸ hh) ht
  | octets hs hh hn ht => exact .octets (huv.scheme ▸ hs) (huv.host ▸ hh) hn ht
  | pieces hs hh => exact .pieces (huv.scheme ▸ hs) (huv.host ▸ hh)

/-- Two empty segments are not gone on from by a path that begins with a name. -/
theorem not_extends_of_cons {seg : List Char} (h : seg ≠ []) (more : List (List Char)) :
    ¬Extends [[],[]] (seg::more) := by
  rintro (hp | ⟨front,hfront,hp⟩)
  · exact h (List.cons_prefix_cons.mp hp).1.symm
  · have hlist : [[]] ++ [[]] = front ++ [[]] := hfront
    obtain rfl : front = [[]] := (List.append_cancel_right hlist).symm
    exact h (List.cons_prefix_cons.mp hp).1.symm

end Url

namespace Http.Api

open Url

/-- The requests of a client, each with the names in its address. -/
inductive Asks (api : Api) : List String → Request → Prop
  | write {R : Type} [Row R] {project : Int64} {m : Mutation R} {r : Request} : NamesSegment R →
      api.submitRequest project m = .ok r → Asks api [Row.table R] r
  | row {R : Type} [Row R] {project : Int64} {key : String} {r : Request} : NamesSegment R →
      api.rowRequest R project key = .ok r → Asks api [Row.table R,key] r
  | rows {R : Type} [Row R] {project : Int64} {r : Request} : NamesSegment R → api.rowsRequest R project = .ok r →
      Asks api ["projects",toString project.toInt,Row.table R] r
  | stream {q : ShapeRequest} {r : Request} : api.shapeRequest q = .ok r → Asks api ["v1","shape"] r

variable {api : Api} {segs : List (List Char)} {names : List String} {r : Request}

/-- What the requests of a client have in common. -/
theorem Asks.url_eq (h : Asks api names r) (hpath : api.base.path = .segments segs) :
    r.token = api.token ∧
    (∃ first rest, names = first::rest ∧ Plain first ∧ first ≠ "") ∧
    ∃ q, r.url = { api.base with
      path := .segments (pushAll api.base.segmentSet (dropEmptyEnd segs) names), query := q } := by
  have htable := tableUrl_of_segments hpath
  have hplain : ∀ {R : Type} [Row R], NamesSegment R → ∀ rest, ∃ first names, Row.table R::rest = first::names ∧
      Plain first ∧ first ≠ "" := fun hR rest => ⟨_,rest,rfl,hR.plain,hR.ne⟩
  cases h with
  | @write R _ project m _ hR h =>
    rw [submitRequest,htable] at h
    cases m with
    | insert row =>
      rw [← Except.ok.inj h]
      exact ⟨rfl,hplain hR _,_,rfl⟩
    | update key changes =>
      rw [← Except.ok.inj h]
      exact ⟨rfl,hplain hR _,_,rfl⟩
    | delete key =>
      rw [← Except.ok.inj h]
      exact ⟨rfl,hplain hR _,_,rfl⟩
  | row hR h =>
    rw [rowRequest,htable] at h
    rw [← Except.ok.inj h]
    exact ⟨rfl,hplain hR _,_,rfl⟩
  | rows hR h =>
    rw [rowsRequest,htable] at h
    rw [← Except.ok.inj h]
    exact ⟨rfl,⟨"projects",_,rfl,by decide,by decide⟩,_,rfl⟩
  | stream h =>
    rw [shapeRequest,endpoint,endpoint?_of_segments hpath] at h
    rw [← Except.ok.inj h]
    exact ⟨rfl,⟨"v1",_,rfl,by decide,by decide⟩,_,rfl⟩

private theorem pushAll_of_plain {set : EncodeSet} (hset : set.Segments) (segs : List (List Char)) {first : String}
    (hplain : Plain first) (hne : first ≠ "") {rest : List String} (h : climbs rest = false) :
    ∃ more, pushAll set (dropEmptyEnd segs) (first::rest) = stem segs ++ encode set first.toList::more := by
  rw [pushAll_cons_of_plain hset segs hplain]
  generalize stem segs = front
  have hend : dropEmptyEnd (front ++ [encode set first.toList]) = front ++ [encode set first.toList] := by
    rw [dropEmptyEnd,if_neg]
    rw [List.getLast?_append_cons]
    exact fun hlast => encode_ne_nil hset hne (Option.some.inj hlast.2)
  have hstem : stem (front ++ [encode set first.toList]) = front ++ [encode set first.toList] := by
    rw [stem,hend,if_neg (append_table_ne hset hne front)]
  obtain ⟨more,hmore⟩ := pushAll_stem hset (front ++ [encode set first.toList]) h
  rw [hend,hstem] at hmore
  exact ⟨more,by rw [hmore,List.append_assoc]; rfl⟩

end Http.Api

open Url Http Http.Api

/-- Every address that names are put at the end of, and every request of a client, is at the server of the accepted
address, which is the machine itself if nothing is encrypted. The path goes on from that of the accepted address,
save for an empty segment at its end, as long as the first name that counts is not left with two points and the path is
not two empty segments. The requests of a client never have such a first name, so that for them the path alone decides,
whatever the key and the handle. -/
theorem Http.Api.reach_of_accepted {s : String} {base : Url} (h : parseSecure s = .ok base) (token : Option String) :
    ∃ segs, base.path = .segments segs ∧ Private base ∧
      (∀ names pairs, ∃ url path, base.endpoint? names = some url ∧ (url.withPairs pairs).path = .segments path ∧
        SameOrigin base (url.withPairs pairs) ∧ Private (url.withPairs pairs) ∧
        (climbs names = false → segs ≠ [[],[]] → Extends segs path)) ∧
      ∀ names r, Asks ⟨base,token⟩ names r → ∃ path, r.url.path = .segments path ∧ r.token = token ∧
        SameOrigin base r.url ∧ Private r.url ∧ (segs ≠ [[],[]] → Extends segs path) ∧
        (climbs names.tail = false → (Extends segs path ↔ segs ≠ [[],[]])) := by
  obtain ⟨hprivate,segs,-,hpath⟩ := accepted h
  have hset := segments_segmentSet base
  refine ⟨segs,hpath,hprivate,fun names pairs => ?_,fun names r hr => ?_⟩
  · have horigin : SameOrigin base ({ base with
        path := .segments (pushAll base.segmentSet (dropEmptyEnd segs) names) }.withPairs pairs) := ⟨rfl,rfl,rfl,rfl⟩
    refine ⟨_,_,endpoint?_of_segments hpath names,rfl,horigin,hprivate.of_sameOrigin horigin,fun hnames hsegs => ?_⟩
    obtain ⟨more,hmore⟩ := pushAll_stem hset segs hnames
    rw [hmore]
    exact extends_stem hsegs more
  · obtain ⟨htoken,⟨first,rest,rfl,hplain,hne⟩,q,hurl⟩ := hr.url_eq hpath
    have hpush : pushAll base.segmentSet (dropEmptyEnd segs) (first::rest) = pushAll base.segmentSet
        (stem segs ++ [encode base.segmentSet first.toList]) rest := pushAll_cons_of_plain hset segs hplain rest
    have horigin : SameOrigin base r.url := by
      rw [hurl]
      exact ⟨rfl,rfl,rfl,rfl⟩
    have hextends : segs ≠ [[],[]] → Extends segs (pushAll base.segmentSet (dropEmptyEnd segs) (first::rest)) := by
      intro hsegs
      have hfirst : Beyond (stem segs) (stem segs ++ [encode base.segmentSet first.toList]) :=
        ⟨_,List.cons_ne_nil _ _,rfl⟩
      obtain ⟨more,-,hmore⟩ := hfirst.pushAll hset rest
      rw [hpush,hmore]
      exact extends_stem hsegs more
    refine ⟨_,by rw [hurl],htoken,horigin,hprivate.of_sameOrigin horigin,hextends,fun hrest => ⟨?_,hextends⟩⟩
    rintro hpaths rfl
    obtain ⟨more,hmore⟩ : ∃ more, pushAll base.segmentSet (dropEmptyEnd [[],[]]) (first::rest) =
      stem [[],[]] ++ encode base.segmentSet first.toList::more := pushAll_of_plain hset _ hplain hne hrest
    rw [hmore] at hpaths
    exact not_extends_of_cons (encode_ne_nil hset hne) more hpaths

/-- An address of the machine itself whose path is two empty segments, as it is read. -/
def Http.Api.twoSlashes : Url := { home with host := some (.name "localhost".toList), path := .segments [[],[]] }

private theorem Http.Api.parseSecure_twoSlashes : parseSecure "http://LOCALHOST:8000//" = .ok twoSlashes := by
  decide +kernel

/-- A read below an address with one empty segment at the end of its path: the key has two points between slashes, and
the segment before it stays. -/
theorem Http.Api.reach_of_accepted_api : ∃ url path, home.endpoint? ["odk_entities","/../"] = some url ∧
    url.path = .segments path ∧ Extends ["api".toList] path ∧ Private url := by
  obtain ⟨segs,hsegs,-,hnames,-⟩ := reach_of_accepted parseSecure_home none
  obtain rfl : ["api".toList] = segs := Path.segments.inj hsegs
  obtain ⟨url,path,hurl,hpath,-,hprivate,hextends⟩ := hnames ["odk_entities","/../"] []
  exact ⟨url,path,hurl,hpath,hextends (by decide) (by decide),hprivate.of_sameOrigin ⟨rfl,rfl,rfl,rfl⟩⟩

/-- Below two empty segments, which are accepted, the stream is asked for at the bare slash, and a name that is left with
two points leads out of a path. -/
theorem Http.Api.twoSlashes_lost :
    (parseSecure "http://LOCALHOST:8000//" = .ok twoSlashes ∧
      ∃ r, shapeRequest ⟨twoSlashes,none⟩ ⟨"odk_entities","project_id=7",.beforeStart,none,false⟩ = .ok r ∧
        r.url.path = .segments ["v1".toList,"shape".toList] ∧ ¬Extends [[],[]] ["v1".toList,"shape".toList]) ∧
    parseSecure "http://127.1:8000/api" = .ok home ∧
      home.endpoint? ["\t.."] = some { home with path := .segments [[]] } ∧ ¬Extends ["api".toList] [[]] := by
  refine ⟨⟨parseSecure_twoSlashes,_,rfl,by decide +kernel,not_extends_of_cons (by decide) _⟩,parseSecure_home,
    by decide +kernel,?_⟩
  rintro (h | ⟨front,h,-⟩)
  · exact absurd (List.cons_prefix_cons.mp h).1 (by decide)
  · rcases List.append_eq_singleton_iff.mp h.symm with ⟨-,h⟩ | ⟨-,h⟩
    · exact absurd h (by decide)
    · cases h

end FieldReplica
