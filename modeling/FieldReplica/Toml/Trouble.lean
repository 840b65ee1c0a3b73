import FieldReplica.Toml.Value

/-!
# Readers

A reader takes a value from the start of a text and gives what is left. Where it cannot, it tells the place,
what it was reading, what could have stood there, and what else is wrong. A trouble is settled once the text
has begun like nothing else.
-/
namespace FieldReplica.Toml

/-- What is wrong with a text, at the place where `left` is left of it. -/
structure Trouble where
  left : List Char
  subject : Option String
  expected : List String
  cause : Option String
  settled : Bool
deriving Repr

/-- A way to read a value of type `α`. -/
abbrev Reader (α : Type) := List Char → Except Trouble (α × List Char)

namespace Trouble

/-- Nothing is known but the place. -/
def here (cs : List Char) : Trouble := ⟨cs, none, [], none, false⟩

/-- Something else is wrong. -/
def because (cs : List Char) (cause : String) : Trouble := ⟨cs, none, [], some cause, false⟩

def message (t : Trouble) : String :=
  let subject := t.subject.toList.map ("invalid " ++ ·)
  let expected := if t.expected = [] then [] else ["expected " ++ String.intercalate ", " t.expected]
  String.intercalate "\n" (subject ++ expected ++ t.cause.toList)

end Trouble

namespace Reader

variable {α β : Type}

/-- Change the trouble of a reader. -/
def onTrouble (f : Trouble → Trouble) (r : Reader α) : Reader α := fun cs => (r cs).mapError f

/-- Tell what is being read, unless that is told more closely. -/
def reading (what : String) : Reader α → Reader α :=
  onTrouble fun t => { t with subject := t.subject.or (some what) }

/-- Tell what could have stood at the place. -/
def expecting (what : List String) : Reader α → Reader α :=
  onTrouble fun t => { t with expected := t.expected ++ what }

/-- No other way to read the text is left. -/
def settled : Reader α → Reader α := onTrouble fun t => { t with settled := true }

def fail : Reader α := fun cs => .error (.here cs)

def char (c : Char) : Reader Unit
  | d :: cs => if c = d then .ok ((), cs) else .error (.here (d :: cs))
  | [] => .error (.here [])

/-- A fixed text. -/
def word : List Char → Reader Unit
  | [], cs => .ok ((), cs)
  | c :: w, cs =>
    match cs with
    | d :: rest => if c = d then word w rest else .error (.here cs)
    | [] => .error (.here [])

/-- The first reader, or the second one if the text does not begin like the first. -/
def orElse (r s : Reader α) : Reader α := fun cs =>
  match r cs with
  | .error t => if t.settled then .error t else s cs
  | ok => ok

/-- What a reader gives, and the stretch that it took. -/
def spanned (r : Reader α) : Reader (Span × α) := fun cs => do
  let (a, rest) ← r cs
  return ((⟨cs.length, rest.length⟩, a), rest)

/-- Convert what is read; a refusal stands at the start of the text. -/
def refine (r : Reader α) (f : α → Except String β) : Reader β := fun cs => do
  let (a, rest) ← r cs
  match f a with
  | .ok b => return (b, rest)
  | .error cause => throw (.because cs cause)

end Reader

/-! ### Blanks, comments and line ends -/

def isBlank (c : Char) : Bool := c = ' ' || c = '\t'

def skipBlanks (cs : List Char) : List Char := cs.dropWhile isBlank

/-- Whether a character may stand in a comment. -/
def isCommentChar (c : Char) : Bool := c = '\t' || (0x20 ≤ c.toNat && c.toNat ≠ 0x7F)

def skipComment : List Char → List Char
  | '#' :: cs => cs.dropWhile isCommentChar
  | cs => cs

/-- The text after a line end, if it begins with one. -/
def newline? : List Char → Option (List Char)
  | '\n' :: cs => some cs
  | '\r' :: '\n' :: cs => some cs
  | _ => none

/-- The rest of a line that holds nothing more. -/
def lineEnd : Reader Unit := fun cs =>
  match skipComment (skipBlanks cs) with
  | [] => .ok ((), [])
  | rest =>
    match newline? rest with
    | some rest => .ok ((), rest)
    | none => .error (.here rest)

/-- The text without blanks, comments and line ends at its start. -/
def skipLines : Nat → List Char → List Char
  | 0, cs => cs
  | fuel + 1, cs =>
    match skipBlanks cs with
    | '#' :: rest =>
      match newline? (rest.dropWhile isCommentChar) with
      | some rest => skipLines fuel rest
      | none => '#' :: rest
    | rest =>
      match newline? rest with
      | some rest => skipLines fuel rest
      | none => rest

end FieldReplica.Toml
