import FieldReplica.Toml.Trouble
import FieldReplica.Url.Encoding

/-!
# Reading strings

The four forms of a string. A line end inside a string is one line feed; one that follows three opening quotes
does not count, and one after a backslash goes with all blanks and line ends that follow it.
-/
namespace FieldReplica.Toml

def hexNumber (ds : List Char) : Nat := ds.foldl (fun n d => n * 16 + (Url.hexValue? d).getD 0) 0

/-- A character by its code point in a fixed count of digits. -/
def codePoint (digits : Nat) : Reader Char := fun cs =>
  let ds := (cs.take digits).takeWhile fun c => (Url.hexValue? c).isSome
  let n := hexNumber ds
  if ds.length < digits then .error (.here cs)
  else if n < 0xD800 ∨ (0xDFFF < n ∧ n < 0x110000) then .ok (Char.ofNat n, cs.drop digits)
  else .error (.because cs "value is out of range")

def escaped : Reader Char
  | 'b' :: cs => .ok (Char.ofNat 8, cs)
  | 'f' :: cs => .ok (Char.ofNat 12, cs)
  | 'n' :: cs => .ok ('\n', cs)
  | 'r' :: cs => .ok ('\r', cs)
  | 't' :: cs => .ok ('\t', cs)
  | '"' :: cs => .ok ('"', cs)
  | '\\' :: cs => .ok ('\\', cs)
  | 'u' :: cs => (codePoint 4).settled.reading "unicode 4-digit hex code" cs
  | 'U' :: cs => (codePoint 8).settled.reading "unicode 8-digit hex code" cs
  | _ :: cs => Reader.fail.settled.reading "escape sequence" |>.expecting
      ["\x60b\x60", "\x60f\x60", "\x60n\x60", "\x60r\x60", "\x60t\x60", "\x60u\x60", "\x60U\x60", "\x60\\\x60",
        "\x60\"\x60"] <| cs
  | [] => .error (.here [])

/-- Whether a character stands for itself in a string with escapes. -/
def isPlain (c : Char) : Bool := isCommentChar c && c ≠ '"' && c ≠ '\\'

/-- A string in double quotes after the opening one. -/
def basicBody : Nat → Reader (List Char)
  | 0, cs => .error (.here cs)
  | _ + 1, [] => .error (.here [])
  | fuel + 1, c :: cs =>
    if c = '"' then .ok ([], cs)
    else if c = '\\' then do
      if cs = [] then throw (.here ['\\'])
      let (c, rest) ← escaped cs
      let (s, rest) ← basicBody fuel rest
      return (c :: s, rest)
    else if isPlain c then do
      let (s, rest) ← basicBody fuel cs
      return (c :: s, rest)
    else .error (.here (c :: cs))

/-- A string in single quotes after the opening one. -/
def literalBody : Reader (List Char)
  | [] => .error (.here [])
  | c :: cs =>
    if c = '\x27' then .ok ([], cs)
    else if isCommentChar c then do
      let (s, rest) ← literalBody cs
      return (c :: s, rest)
    else .error (.here (c :: cs))

/-- How many quotes a text begins with, at most five. -/
def quoteRun (q : Char) (cs : List Char) : Nat := ((cs.take 5).takeWhile (· = q)).length

/-- The text after a backslash at the end of a line. -/
def joinLines? (cs : List Char) : Option (List Char) :=
  (newline? (skipBlanks cs)).map fun cs => (cs.dropWhile fun c => isBlank c || c = '\n' || c = '\r')

/-- A string of several lines after its opening quotes; of five closing quotes two belong to the string. -/
def linesBody (q : Char) (escapes : Bool) : Nat → Reader (List Char)
  | 0, cs => .error (.here cs)
  | _ + 1, [] => .error (.here [])
  | fuel + 1, c :: cs =>
    let run := quoteRun q (c :: cs)
    if 3 ≤ run then .ok (List.replicate (run - 3) q, (c :: cs).drop run)
    else
      match newline? (c :: cs) with
      | some rest => do
        let (s, rest) ← linesBody q escapes fuel rest
        return ('\n' :: s, rest)
      | none =>
        if escapes ∧ c = '\\' then
          match joinLines? cs with
          | some rest => linesBody q escapes fuel rest
          | none => do
            let (c, rest) ← escaped cs
            let (s, rest) ← linesBody q escapes fuel rest
            return (c :: s, rest)
        else if isCommentChar c then do
          let (s, rest) ← linesBody q escapes fuel cs
          return (c :: s, rest)
        else .error (.here (c :: cs))

/-- A string of several lines; a line end right after the opening quotes does not count. -/
def linesString (q : Char) (escapes : Bool) : Reader (List Char) := fun cs =>
  linesBody q escapes (cs.length + 1) ((newline? cs).getD cs)

def basicString : Reader (List Char) :=
  Reader.settled (fun cs => basicBody (cs.length + 1) cs) |>.reading "basic string"

def literalString : Reader (List Char) := literalBody.settled.reading "literal string"

def string : Reader String := fun cs => do
  let (s, rest) ← match cs with
    | '"' :: '"' :: '"' :: cs => (linesString '"' true).settled.reading "multiline basic string" cs
    | '"' :: cs => basicString cs
    | '\x27' :: '\x27' :: '\x27' :: cs =>
      (linesString '\x27' false).settled.reading "multiline literal string" cs
    | '\x27' :: cs => literalString cs
    | cs => Reader.fail cs
  return (String.ofList s, rest)

end FieldReplica.Toml
