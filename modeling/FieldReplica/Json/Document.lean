import FieldReplica.Json.Basic

/-!
# JSON as it is read

A document is what a reader meets in a JSON text, up to the first place where the text is no JSON.
Decoding walks a document in text order, so of two faults the one that stands first in the text is
the one reported, whether it lies in the text's form or in what it says. A value that is already at
hand is a document without a fault of form (`Doc.ofJson`).
-/
namespace FieldReplica

/-- A JSON text as far as it can be read. -/
inductive Doc where
  | null
  | bool (b : Bool)
  /-- A number; none if its magnitude is beyond every double. -/
  | number (n : Option JsonNumber)
  /-- A text; none if it names half of a surrogate pair. -/
  | string (s : Option String)
  /-- A list of values. It is `deep` if it stands beyond the greatest depth that is decoded, and
  `whole` if nothing but its closing bracket follows the values. -/
  | array (deep : Bool) (items : List Doc) (whole : Bool)
  /-- An object; a key is none where its text is. -/
  | object (deep : Bool) (members : List (Option String × Doc)) (whole : Bool)
  /-- The place where the text is no JSON. -/
  | broken
deriving Inhabited, Repr

namespace Doc

mutual

def ofJson : Json → Doc
  | .null => .null
  | .bool b => .bool b
  | .number n => .number (some n)
  | .string s => .string (some s)
  | .array items => .array false (ofItems items) true
  | .object members => .object false (ofMembers members) true

def ofItems : List Json → List Doc
  | [] => []
  | v :: rest => ofJson v :: ofItems rest

def ofMembers : List (String × Json) → List (Option String × Doc)
  | [] => []
  | (k, v) :: rest => (some k, ofJson v) :: ofMembers rest

end

mutual

/-- Whether the text has the form of JSON, whatever it says. -/
def wellFormed : Doc → Bool
  | .broken => false
  | .array _ items whole => wellFormedItems items && whole
  | .object _ members whole => wellFormedMembers members && whole
  | _ => true

def wellFormedItems : List Doc → Bool
  | [] => true
  | d :: rest => wellFormed d && wellFormedItems rest

def wellFormedMembers : List (Option String × Doc) → Bool
  | [] => true
  | (_, d) :: rest => wellFormed d && wellFormedMembers rest

end

mutual

/-- The value that the document spells, objects in canonical order; none if the text is no JSON, a
number or a text in it has no value, or it is nested too deeply. -/
def toJson? : Doc → Option Json
  | .null => some .null
  | .bool b => some (.bool b)
  | .number n => n.map .number
  | .string s => s.map .string
  | .array false items true => (toItems? items).map .array
  | .object false members true => (toMembers? members).map Json.mkObject
  | _ => none

def toItems? : List Doc → Option (List Json)
  | [] => some []
  | d :: rest => (toJson? d).bind fun v => (toItems? rest).map (v :: ·)

def toMembers? : List (Option String × Doc) → Option (List (String × Json))
  | [] => some []
  | (k, d) :: rest =>
    k.bind fun k => (toJson? d).bind fun v => (toMembers? rest).map ((k, v) :: ·)

end

end Doc
end FieldReplica
