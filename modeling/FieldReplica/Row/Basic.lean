import FieldReplica.Json.Decoder

/-!
# Rows

What every replicated table has in common: its name on the wire, its primary key, whether its rows may
change once they are written, and how a row is written and read.
-/
namespace FieldReplica

/-- A type of rows that can be replicated. -/
class Row (R : Type) where
  decEq : DecidableEq R
  /-- The name of the table on the wire. -/
  table : String
  /-- The column that holds the primary key. -/
  keyField : String
  /-- Whether rows may be updated and deleted. -/
  isMutable : Bool
  key : R → String
  withKey : R → String → R
  projectId : R → Int64
  schema : Schema R
  key_withKey : ∀ r k, key (withKey r k) = k
  withKey_key : ∀ r, withKey r (key r) = r
  /-- The key's column takes the key from a text. -/
  key_of_read : ∀ c ∈ schema.columns, c.name = keyField → ∀ o doc f, c.read o doc = .ok f →
    ∃ k, doc = .string (some k) ∧ ∀ r, key (f r) = k
  /-- No other column touches the key. -/
  key_read : ∀ c ∈ schema.columns, c.name ≠ keyField → ∀ o doc f, c.read o doc = .ok f →
    ∀ r, key (f r) = key r

instance {R : Type} [Row R] : DecidableEq R := Row.decEq

namespace Row

variable {R : Type} [Row R]

def toJson (r : R) : Json := (schema : Schema R).encode r

def decode : Decoder R := (schema : Schema R).decode

end Row
end FieldReplica
