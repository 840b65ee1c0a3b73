import FieldReplica.Json.Decoder
import FieldReplica.Toml.Document

/-!
# Faults of a document

Why a document is of no use, shown by the line that is at fault: either it cannot be read, or a value in it is
not what it should be.
-/
namespace FieldReplica.Toml

/-- A fault, the stretch of the text that it lies in, and what is said about it. -/
structure Fault where
  span : Option Span
  kind : DecodeError
  text : String
deriving DecidableEq, Repr

namespace Fault

/-- The fault of a text that cannot be read: it lies in the first character that does not fit. -/
def ofTrouble (t : Trouble) : Fault :=
  ⟨some ⟨t.left.length, t.left.length - 1⟩, .invalid, t.message⟩

def size (cs : List Char) : Nat := (String.ofList cs).utf8ByteSize

/-- The text of the last line of a text. -/
def lastLine (cs : List Char) : List Char := (cs.reverse.takeWhile (· ≠ '\n')).reverse

/-- The column of the character at an index, from nought, in the line that the text before it ends with. -/
def column (before after : List Char) : Nat :=
  match after with
  | c :: _ => if c.toNat < 0x80 then (lastLine before).length else size (lastLine before)
  | [] =>
    match before.reverse with
    | '\n' :: rest => (lastLine rest.reverse).length + 1
    | _ => (lastLine before).length

/-- The number of the line that a place is in, from nought; the end of a text belongs to its last line. -/
def lineNumber (before after : List Char) : Nat :=
  let before := if after = [] then before.dropLast else before
  before.count '\n'

/-- The line with a fault under its number, with marks below the fault. -/
def excerpt (source : List Char) (s : Span) : String :=
  let before := source.take (source.length - s.start)
  let after := source.drop (source.length - s.start)
  let line := lineNumber before after
  let column := column before after
  let content := ((String.ofList source).splitOn "\n").getD line ""
  let number := toString (line + 1)
  let gutter := "".pushn ' ' (number.length + 1) ++ "|"
  let marks := min (size (after.take (s.start - s.stop))) (content.utf8ByteSize - column)
  "TOML parse error at line " ++ number ++ ", column " ++ toString (column + 1) ++ "\n" ++
    gutter ++ "\n" ++ number ++ " | " ++ content ++ "\n" ++
    gutter ++ "".pushn ' ' (column + 1) ++ "^" ++ "".pushn '^' (marks - 1) ++ "\n"

/-- The whole message about a fault in a text. -/
def message (source : List Char) (f : Fault) : String :=
  (f.span.map (excerpt source)).getD "" ++ f.text ++ "\n"

end Fault
end FieldReplica.Toml
