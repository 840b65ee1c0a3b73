import FieldReplica.Row.Basic
import FieldReplica.Table

/-!
# Change sets

A change set gives new values to some columns of a row. It is applied column by column, each value
being read as the type of its column; the primary key and unknown columns cannot be changed.
-/
namespace FieldReplica

/-- New values by column. -/
abbrev ChangeSet : Type := Table String Json

/-- Why a change set does not apply to a row. -/
inductive PatchError where
  | empty
  | keyChanged (keyField : String)
  | unknownColumn (name : String)
  | undecodable (cause : DecodeError)
deriving DecidableEq, Repr

def PatchError.message : PatchError → String
  | .empty => "empty change set"
  | .keyChanged keyField => keyField ++ " cannot be changed"
  | .unknownColumn name => "unknown column " ++ name
  | .undecodable cause => cause.message

namespace Row

variable {R : Type} [Row R]

def column? (name : String) : Option (Column R) := (schema : Schema R).column? name

/-- The row with one column read anew; a name that is no column's changes nothing. -/
def assign (name : String) (v : Json) (r : R) : Except DecodeError R :=
  match (column? name : Option (Column R)) with
  | none => .ok r
  | some c => do
    let f ← c.read.ofJson v
    return f r

/-- The row with some columns read anew, in order. -/
def assignAll : List (String × Json) → R → Except DecodeError R
  | [], r => .ok r
  | (name, v) :: rest, r => do
    let r ← assign name v r
    assignAll rest r

/-- The row after a change set. -/
def applyChanges (r : R) (changes : ChangeSet) : Except PatchError R :=
  if changes.isEmpty then .error .empty
  else if (changes.find? (keyField R)).any (· ≠ .string (key r)) then .error (.keyChanged (keyField R))
  else
    match changes.keys.find? fun name => (column? name : Option (Column R)).isNone with
    | some name => .error (.unknownColumn name)
    | none =>
      match assignAll changes.entries r with
      | .ok r => .ok r
      | .error e => .error (.undecodable e)

end Row
end FieldReplica
