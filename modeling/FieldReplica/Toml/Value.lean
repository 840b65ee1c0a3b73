import FieldReplica.Number.Binary64

/-!
# TOML documents

A document is a table, whose members stand in the order in which they were first named. Every value knows
where it stands in the text. How a table came to be decides what may be added to it later.
-/
namespace FieldReplica.Toml

/-- A stretch of a text, by the number of characters that are left at its start and at its end. -/
structure Span where
  start : Nat
  stop : Nat
deriving DecidableEq, Repr, Inhabited

/-- A double, or what is beyond every double. -/
inductive Real where
  | finite (x : Number.Binary64)
  | infinite (negative : Bool)
  | notANumber
deriving DecidableEq, Repr

inductive Scalar where
  | string (s : String)
  | integer (n : Int)
  | float (x : Real)
  | boolean (b : Bool)
  /-- A date, a time or both. -/
  | moment
deriving DecidableEq, Repr

/-- How a table came to be. -/
inductive TableKind where
  /-- Between braces; nothing is added to it. -/
  | braces
  /-- By a header of its own. -/
  | header
  /-- By the header of a table in it. -/
  | implied
  /-- By a key with several parts. -/
  | dotted
deriving DecidableEq, Repr

structure Key where
  name : String
  span : Span
deriving DecidableEq, Repr

inductive Value where
  | scalar (span : Span) (s : Scalar)
  | array (span : Span) (items : List Value)
  | table (kind : TableKind) (span : Option Span) (members : List (Key × Value))
  /-- Tables under a repeated header. -/
  | tables (items : List Value)
deriving Inhabited

abbrev Members := List (Key × Value)

namespace Value

def typeName : Value → String
  | .scalar _ (.string _) => "string"
  | .scalar _ (.integer _) => "integer"
  | .scalar _ (.float _) => "float"
  | .scalar _ (.boolean _) => "boolean"
  | .scalar _ .moment => "datetime"
  | .array _ _ => "array"
  | .table .braces _ _ => "inline table"
  | .table _ _ _ => "table"
  | .tables _ => "array of tables"

def span? : Value → Option Span
  | .scalar s _ => some s
  | .array s _ => some s
  | .table _ s _ => s
  | .tables items =>
    match items.head?, items.getLast? with
    | some (.table _ (some a) _), some (.table _ (some b) _) => some ⟨a.start, b.stop⟩
    | _, _ => none

end Value
end FieldReplica.Toml
