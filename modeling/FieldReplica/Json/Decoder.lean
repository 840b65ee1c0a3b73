import FieldReplica.Json.Reader
import FieldReplica.Text.Quoted

/-!
# Decoding documents

A decoder turns a document into a value of some type or names the first fault it meets. A record is
decoded from an object by its columns, in the order in which the document has them, or from a list
that has the columns' values in the order of their declaration. Columns that are left out are
looked at last.
-/
namespace FieldReplica

/-- Why a document does not decode. -/
inductive DecodeError where
  /-- The text is no JSON up to the place that was needed. -/
  | malformed
  | missingField (name : String)
  | unknownField (name : String)
  | duplicateField (name : String)
  | unknownVariant (name : String)
  | invalidType
  | invalidValue
  | invalidLength
  | invalidOffset (text : String)
  /-- None of the forms of a value fits. -/
  | noVariant
  | invalid
deriving DecidableEq, Repr, Inhabited

/-- A name between backticks; it ends at the first backtick of its own. -/
def DecodeError.named (kind name : String) : String :=
  kind ++ " `" ++ String.ofList (name.toList.takeWhile (· ≠ '`')) ++ "`"

def DecodeError.message : DecodeError → String
  | .malformed => "malformed"
  | .missingField name => named "missing field" name
  | .unknownField name => named "unknown field" name
  | .duplicateField name => named "duplicate field" name
  | .unknownVariant name => named "unknown variant" name
  | .invalidType => "invalid type"
  | .invalidValue => "invalid value"
  | .invalidLength => "invalid length"
  | .invalidOffset text => "invalid log offset: " ++ Text.Quoted.quote text
  | .noVariant => "no variant matched"
  | .invalid => "invalid"

/-- Whether a document is being read from a text or stands for a value at hand. Only the former can
break off, and what is too much in it is a fault of form. -/
inductive Origin where
  | text
  | value
deriving DecidableEq, Repr

/-- The fault of having more than was asked for. -/
def Origin.surplus : Origin → DecodeError
  | .text => .malformed
  | .value => .invalidLength

/-- A way to read a value of type `α` from a document. -/
abbrev Decoder (α : Type) := Origin → Doc → Except DecodeError α

namespace Decoder

variable {α β : Type}

/-- The fault of a document that is of another type than the one asked for. -/
def mismatch : Doc → DecodeError
  | .broken => .malformed
  | .number none => .malformed
  | .string none => .malformed
  | _ => .invalidType

def guard (ok : Bool) (e : DecodeError) (k : Except DecodeError α) : Except DecodeError α :=
  if ok then k else .error e

def ofJson (d : Decoder α) (v : Json) : Except DecodeError α := d .value (.ofJson v)

/-- Decode a text, after which nothing but blanks may follow. -/
def ofText (d : Decoder α) (s : String) : Except DecodeError α := do
  let (doc, finished) := Json.read s
  let a ← d .text doc
  guard finished .malformed (.ok a)

def bind (d : Decoder α) (f : α → Except DecodeError β) : Decoder β := fun o doc => do f (← d o doc)

def map (f : α → β) (d : Decoder α) : Decoder β := fun o doc => do return f (← d o doc)

def string : Decoder String
  | _, .string (some s) => .ok s
  | _, doc => .error (mismatch doc)

theorem eq_of_string {o : Origin} {doc : Doc} {s : String} (h : string o doc = .ok s) :
    doc = .string (some s) := by
  unfold string at h
  split at h
  · rw [Except.ok.inj h]
  · cases h

def bool : Decoder Bool
  | _, .bool b => .ok b
  | _, doc => .error (mismatch doc)

def integer (low high : Int) : Decoder Int
  | _, .number (some (.int n)) => guard (decide (low ≤ n ∧ n ≤ high)) .invalidValue (.ok n)
  | _, doc => .error (mismatch doc)

def int64 : Decoder Int64 := map Int64.ofInt (integer Int64.minValue.toInt Int64.maxValue.toInt)

def uint64 : Decoder UInt64 := map (fun n => UInt64.ofNat n.toNat) (integer 0 (UInt64.size - 1))

def uint32 : Decoder UInt32 := map (fun n => UInt32.ofNat n.toNat) (integer 0 (UInt32.size - 1))

def json : Decoder Json
  | _, doc => match doc.toJson? with
    | some v => .ok v
    | none => .error .malformed

def optional (d : Decoder α) : Decoder (Option α)
  | _, .null => .ok none
  | o, doc => do return some (← d o doc)

def items (d : Decoder α) (o : Origin) : List Doc → Except DecodeError (List α)
  | [] => .ok []
  | doc :: rest => do
    let a ← d o doc
    let as ← items d o rest
    return a :: as

def list (d : Decoder α) : Decoder (List α)
  | o, .array deep docs whole => do
    guard (!deep) .malformed do
      let as ← items d o docs
      guard whole .malformed (.ok as)
  | _, doc => .error (mismatch doc)

/-- A name from a closed set, either as a text or as an object whose only member has that key and the
value null. -/
def variant (resolve : String → Option α) : Decoder α
  | _, .string (some s) => named s
  | _, .string none => .error .malformed
  | .text, .object deep members whole =>
    guard (!deep) .malformed <|
      match members with
      | (some k, doc) :: rest => do
        let a ← named k
        unit doc
        guard (rest.isEmpty && whole) .malformed (.ok a)
      | _ => .error .malformed
  | .value, .object _ members _ =>
    match members with
    | [(some k, doc)] => do
      let a ← named k
      unit doc
      return a
    | _ => .error .invalidValue
  | .text, _ => .error .malformed
  | .value, _ => .error .invalidType
where
  named (s : String) : Except DecodeError α :=
    match resolve s with
    | some a => .ok a
    | none => .error (.unknownVariant s)
  unit : Doc → Except DecodeError Unit
    | .null => .ok ()
    | doc => .error (mismatch doc)

/-- The first of some forms that fits; the document is first read to its end. -/
def firstOf (forms : List (Decoder α)) : Decoder α := fun _ doc =>
  if doc.toJson?.isSome then
    match forms.findSome? fun d => (d .value doc).toOption with
    | some a => .ok a
    | none => .error .noVariant
  else .error .malformed

end Decoder

/-- What leaving a column out means. -/
inductive Presence where
  /-- It may not be left out. -/
  | required
  /-- It may be left out of an object, and keeps its blank value. -/
  | nullable
  /-- It may be left out, and keeps its blank value. -/
  | defaulted
deriving DecidableEq, Repr

/-- A named part of a record, as it is written and as it is read into a record. -/
structure Column (R : Type) where
  name : String
  presence : Presence
  write : R → Json
  read : Decoder (R → R)

/-- A column that holds a value of a type of its own. -/
def Column.ofField {R α : Type} (name : String) (presence : Presence) (get : R → α)
    (set : α → R → R) (write : α → Json) (read : Decoder α) : Column R where
  name := name
  presence := presence
  write r := write (get r)
  read := read.map set

theorem Column.read_ofField {R α : Type} {name : String} {presence : Presence} {get : R → α}
    {set : α → R → R} {write : α → Json} {read : Decoder α} {o : Origin} {doc : Doc} {f : R → R}
    (h : (Column.ofField name presence get set write read).read o doc = .ok f) :
    ∃ a, read o doc = .ok a ∧ f = set a := by
  simp only [Column.ofField, Decoder.map] at h
  cases hr : read o doc with
  | error e => rw [hr] at h; cases h
  | ok a => rw [hr] at h; exact ⟨a, rfl, (Except.ok.inj h).symm⟩

/-- How records of type `R` are written and read. -/
structure Schema (R : Type) where
  columns : List (Column R)
  /-- The record before any column has been read. -/
  blank : R
  /-- Whether columns without a declaration are refused. -/
  closed : Bool

namespace Schema

variable {R : Type}

def column? (s : Schema R) (name : String) : Option (Column R) :=
  s.columns.find? (·.name = name)

/-- The object of a record's columns in the order of their declaration. -/
def encode (s : Schema R) (r : R) : Json := .object (s.columns.map fun c => (c.name, c.write r))

/-- Read members into a record; `seen` has the names of the columns read so far. -/
def readMembers (s : Schema R) (o : Origin) :
    R → List String → List (Option String × Doc) → Except DecodeError (R × List String)
  | r, seen, [] => .ok (r, seen)
  | _, _, (none, _) :: _ => .error .malformed
  | r, seen, (some k, doc) :: rest =>
    match s.column? k with
    | none =>
      if s.closed then .error (.unknownField k)
      else Decoder.guard doc.wellFormed .malformed (readMembers s o r seen rest)
    | some c =>
      if k ∈ seen then .error (.duplicateField k)
      else do
        let f ← c.read o doc
        readMembers s o (f r) (k :: seen) rest

def readItems (o : Origin) (whole : Bool) : List (Column R) → R → List Doc → Except DecodeError R
  | [], r, [] => Decoder.guard whole .malformed (.ok r)
  | [], _, _ :: _ => .error o.surplus
  | c :: cs, r, [] =>
    Decoder.guard whole .malformed <|
      if c.presence = .defaulted then readItems o whole cs r [] else .error .invalidLength
  | c :: cs, r, doc :: rest => do
    let f ← c.read o doc
    readItems o whole cs (f r) rest

/-- The first column that must be there and is not. -/
def missing? (s : Schema R) (seen : List String) : Option String :=
  (s.columns.find? fun c => c.presence = .required ∧ c.name ∉ seen).map (·.name)

def decode (s : Schema R) : Decoder R
  | o, .object deep members whole =>
    Decoder.guard (!deep) .malformed do
      let (r, seen) ← s.readMembers o s.blank [] members
      Decoder.guard whole .malformed <|
        match s.missing? seen with
        | some name => .error (.missingField name)
        | none => .ok r
  | o, .array deep docs whole =>
    Decoder.guard (!deep) .malformed (readItems o whole s.columns s.blank docs)
  | _, doc => .error (Decoder.mismatch doc)

end Schema
end FieldReplica
