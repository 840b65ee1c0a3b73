import FieldReplica.Url.Basic

/-!
# Endpoints

Addresses below a base URL: segments are added to its path and pairs to its query. A segment is encoded so
that it stays one segment. The names of dot segments are not added, and a URL without a structured path
takes no segments.
-/
namespace FieldReplica.Url

def segmentSet (u : Url) : EncodeSet :=
  if (schemeKind u.scheme).special then .specialPathSegment else .pathSegment

/-- A path without an empty segment at its end, as long as another one is left. -/
def dropEmptyEnd (segs : List (List Char)) : List (List Char) :=
  if 1 < segs.length ∧ segs.getLast? = some [] then segs.dropLast else segs

/-- A path with one more segment, encoded by the set; a path of one empty segment is the bare slash. -/
def pushSegment (set : EncodeSet) (segs : List (List Char)) (name : List Char) : List (List Char) :=
  if name = ['.'] ∨ name = ['.', '.'] then segs
  else resolveDots (if segs = [[]] then [] else segs) [encode set (name.filter (!isDropped ·))]

/-- The address below a URL with the given segments; none if the URL takes none. -/
def endpoint? (base : Url) (names : List String) : Option Url :=
  match base.path with
  | .opaqueText _ => none
  | .segments segs =>
    let push := fun segs (name : String) => pushSegment base.segmentSet segs name.toList
    some { base with path := .segments (names.foldl push (dropEmptyEnd segs)) }

/-- The address with pairs at the end of its query; an empty query is left out. -/
def withPairs (u : Url) (pairs : List (String × String)) : Url :=
  let old := u.query.getD []
  let new := if old = [] then encodePairs pairs
    else if pairs = [] then old
    else old ++ '&' :: encodePairs pairs
  { u with query := if new = [] then none else some new }

/-- The decoded name that a URL gives, and the password if there is one. -/
def credentials? (u : Url) : Option (String × Option String) := do
  let name ← Text.Utf8.decode? (decodeOctets (u.userinfo.takeWhile (· ≠ ':')))
  let password := match u.userinfo.dropWhile (· ≠ ':') with
    | _ :: cs => Text.Utf8.decode? (decodeOctets cs)
    | [] => none
  if name = "" ∧ password.isNone then none else some (name, password)

end FieldReplica.Url
