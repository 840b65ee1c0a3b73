import FieldReplica.Json.Decoder
import FieldReplica.Text.Decimal

/-!
# Log offsets

A place in the server's replication log: before its start, or a transaction and an operation within
it. Offsets are ordered as they stand in the log. The text of an offset is `-1` or the two numbers
with an underscore between them.
-/
namespace FieldReplica

/-- A place in the replication log. -/
inductive LogOffset where
  | beforeStart
  | at (tx op : UInt64)
deriving DecidableEq, Repr, Inhabited

namespace LogOffset

def toChars : LogOffset → List Char
  | .beforeStart => ['-', '1']
  | .at tx op => Text.Decimal.ofNat tx.toNat ++ '_' :: Text.Decimal.ofNat op.toNat

def toText (o : LogOffset) : String := String.ofList o.toChars

/-- The text before the first underscore and the text after it. -/
def splitAtUnderscore? : List Char → Option (List Char × List Char)
  | [] => none
  | c :: cs =>
    if c = '_' then some ([], cs)
    else (splitAtUnderscore? cs).map fun (a, b) => (c :: a, b)

def ofChars? (cs : List Char) : Option LogOffset :=
  if cs = ['-', '1'] then some .beforeStart
  else
    (splitAtUnderscore? cs).bind fun (a, b) =>
      (Text.Decimal.uint64? a).bind fun tx => (Text.Decimal.uint64? b).map fun op => .at tx op

def ofText? (s : String) : Option LogOffset := ofChars? s.toList

def compare : LogOffset → LogOffset → Ordering
  | .beforeStart, .beforeStart => .eq
  | .beforeStart, .at _ _ => .lt
  | .at _ _, .beforeStart => .gt
  | .at tx op, .at tx' op' => (Ord.compare tx tx').then (Ord.compare op op')

instance : Ord LogOffset := ⟨compare⟩

/-- Whether an offset stands no later in the log than another one. -/
def le (a b : LogOffset) : Bool := compare a b ≠ .gt

def toJson (o : LogOffset) : Json := .string o.toText

def decode : Decoder LogOffset :=
  Decoder.string.bind fun s =>
    match ofText? s with
    | some o => .ok o
    | none => .error (.invalidOffset s)

end LogOffset
end FieldReplica
