import FieldReplica.Json.Printer
import FieldReplica.Stream.Message

/-!
# Answers of the mutation endpoints

An accepted mutation is answered by its row, which is null for a removal, and the transaction that it
became. A refused request is answered by a detail, which is a text or, for faults in its columns, a
structured value.
-/
namespace FieldReplica

/-- The answer to an accepted mutation. -/
structure MutationResponse (R : Type) where
  entity : Option R
  txid : Txid
deriving DecidableEq, Repr

namespace MutationResponse

variable {R : Type}

/-- The columns of the answer, given how a row is written and read. -/
def schema (write : R → Json) (read : Decoder R) : Schema (MutationResponse R) where
  columns := [
    .ofField "entity" .nullable (·.entity) (fun v r => { r with entity := v })
      (Json.optional write) (.optional read),
    .ofField "txid" .required (·.txid) (fun v r => { r with txid := v }) Txid.toJson Txid.decode]
  blank := ⟨none, ⟨0⟩⟩
  closed := false

/-- The answer with its row left as it is, whatever it looks like. -/
def untyped : Schema (MutationResponse Json) := schema id .json

/-- The answer with a row of a table. -/
def typed (R : Type) [Row R] : Schema (MutationResponse R) := schema Row.toJson Row.decode

end MutationResponse

/-- The answer to a refused request. -/
structure ErrorBody where
  detail : Json
deriving DecidableEq, Repr

namespace ErrorBody

def schema : Schema ErrorBody where
  columns := [.ofField "detail" .required (·.detail) (fun v _ => ⟨v⟩) id .json]
  blank := ⟨.null⟩
  closed := false

def toJson (b : ErrorBody) : Json := schema.encode b

def decode : Decoder ErrorBody := schema.decode

/-- The detail for people: a text as it is, anything else as JSON text. -/
def message (b : ErrorBody) : String :=
  match b.detail with
  | .string s => s
  | v => v.render

end ErrorBody
end FieldReplica
