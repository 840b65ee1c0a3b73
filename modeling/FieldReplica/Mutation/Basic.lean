import FieldReplica.Error
import FieldReplica.Mutation.Patch

/-!
# Mutations

A write that a client asks for: a new row, new values for some columns of a row, or the removal of a
row. A row read from the server reflects a mutation if it shows its outcome.
-/
namespace FieldReplica

/-- A write of one row. -/
inductive Mutation (R : Type) where
  | insert (row : R)
  | update (key : String) (changes : ChangeSet)
  | delete (key : String)
deriving DecidableEq

namespace Mutation

variable {R : Type} [Row R]

def key : Mutation R → String
  | .insert row => Row.key row
  | .update key _ => key
  | .delete key => key

def kind : Mutation R → MutationKind
  | .insert _ => .insert
  | .update _ _ => .update
  | .delete _ => .delete

/-- Whether two rows show the same value in a column. A name that is no column's is shown by neither. -/
def sameColumn (r s : R) (name : String) : Bool :=
  match (Row.column? name : Option (Column R)) with
  | none => true
  | some c => c.write r = c.write s

/-- Whether the server's row under the key, if any, shows the mutation's outcome: for an update, every
column that it names already has the value it gives. -/
def isReflectedBy : Mutation R → Option R → Bool
  | .insert _, server => server.isSome
  | .delete _, server => server.isNone
  | .update _ _, none => false
  | .update _ changes, some row =>
    match Row.assignAll changes.entries row with
    | .ok patched => changes.keys.all (sameColumn row patched)
    | .error _ => false

end Mutation
end FieldReplica
