import FieldReplica.Number.Shortest
import FieldReplica.Json.Printer
import FieldReplica.Toml.Fault

/-!
# Decoding TOML values

A decoder turns a value into one of some type, or tells what was expected in its place. A record is decoded
from a table by the names of its fields, in the order in which the table has them, or from a list that has the
fields' values in order; what is left out keeps its value.
-/
namespace FieldReplica.Toml

/-- The member that stands for a date or a time where a table is expected. -/
def momentKey : String := "$__toml_private_datetime"

/-- A double in full, without an exponent. -/
def realText : Real → String
  | .notANumber => "NaN"
  | .infinite negative => if negative then "-inf" else "inf"
  | .finite x =>
    let sign := if x.negative then ['-'] else []
    if x.isZero then String.ofList (sign ++ ['0', '.', '0'])
    else
      let d := Number.Shortest.decimal x
      let digits := Nat.toDigits 10 d.digits
      String.ofList (sign ++ Json.positional digits (digits.length + d.exponent))

/-- What a value is called where another one was expected. -/
def Value.describe : Value → String
  | .scalar _ (.string s) => "string " ++ Text.Quoted.quote s
  | .scalar _ (.integer n) => "integer \x60" ++ toString n ++ "\x60"
  | .scalar _ (.float x) => "floating point \x60" ++ realText x ++ "\x60"
  | .scalar _ (.boolean b) => "boolean \x60" ++ toString b ++ "\x60"
  | .scalar _ .moment => "map"
  | .array _ _ => "sequence"
  | .tables _ => "sequence"
  | .table _ _ _ => "map"

/-- A way to decode a value of type `α`. -/
abbrev Decoder (α : Type) := Value → Except Fault α

namespace Decoder

variable {α R : Type}

/-- A value of another type than the expected one. -/
def mismatch (v : Value) (expected : String) : Except Fault α :=
  .error ⟨v.span?, .invalidType, "invalid type: " ++ v.describe ++ ", expected " ++ expected⟩

def string : Decoder String
  | .scalar _ (.string s) => .ok s
  | v => mismatch v "a string"

def boolean : Decoder Bool
  | .scalar _ (.boolean b) => .ok b
  | v => mismatch v "a boolean"

def natural (limit : Nat) (expected : String) : Decoder Nat
  | .scalar span (.integer n) =>
    if 0 ≤ n ∧ n < limit then .ok n.toNat
    else
      .error ⟨some span, .invalidValue, "invalid value: integer \x60" ++ toString n ++ "\x60, expected " ++
        expected⟩
  | v => mismatch v expected

/-- A named part of a record, by the change that its value makes. -/
structure Field (R : Type) where
  name : String
  read : Decoder (R → R)

/-- The fault of a name that no field has. -/
def unknownField (fields : List (Field R)) (k : Key) : Fault :=
  let shown := fields.map fun f => "\x60" ++ f.name ++ "\x60"
  ⟨some k.span, .unknownField k.name,
    "unknown field \x60" ++ k.name ++ "\x60, expected one of " ++ String.intercalate ", " shown⟩

/-- The place of a key, for a fault that has none. -/
def atKey (k : Key) (f : Fault) : Fault := { f with span := f.span.or (some k.span) }

def members (fields : List (Field R)) (closed : Bool) : R → Members → Except Fault R
  | r, [] => .ok r
  | r, (k, v) :: rest =>
    match fields.find? (·.name = k.name) with
    | none => if closed then .error (unknownField fields k) else members fields closed r rest
    | some f => do
      let change ← (f.read v).mapError (atKey k)
      members fields closed (change r) rest

def items : List (Field R) → R → List Value → Except Fault R
  | f :: fs, r, v :: vs => do
    let change ← f.read v
    items fs (change r) vs
  | _, r, _ => .ok r

def record (typeName : String) (fields : List (Field R)) (closed : Bool) (start : R) : Decoder R
  | .table _ _ ms => members fields closed start ms
  | .scalar span .moment => members fields closed start [(⟨momentKey, span⟩, .scalar span .moment)]
  | .array _ vs => items fields start vs
  | .tables vs => items fields start vs
  | v => mismatch v typeName

end Decoder
end FieldReplica.Toml
