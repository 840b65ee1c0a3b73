/-!
# TOML strings

The form in which a string is written, of four: between single or triple quotes, and either as it is or with
escapes. The plainest form comes first: one line without escapes in double quotes, the text as it is in single
quotes, several lines without escapes in triple double quotes, the text as it is in triple single quotes, and
escapes where nothing else will do.
-/
namespace FieldReplica.Toml

/-- The forms of a string. -/
inductive StringForm where
  | basic
  | literal
  | basicLines
  | literalLines
deriving DecidableEq, Repr

/-- The length of the longest run of a character, `run` of which stand just before the text. -/
def longestRun (q : Char) (run : Nat) : List Char → Nat
  | [] => run
  | c :: cs => if c = q then longestRun q (run + 1) cs else max run (longestRun q 0 cs)

/-- Whether a character can only be written as an escape. -/
def needsEscape (c : Char) : Bool :=
  (c.toNat < 0x20 && c ≠ '\t' && c ≠ '\n') || c.toNat = 0x7F

namespace StringForm

/-- The plainest form that can hold a text. -/
def choose (cs : List Char) : StringForm :=
  let controls := cs.any needsEscape
  let backslash := cs.contains '\\'
  let lines := cs.contains '\n'
  let doubles := longestRun '"' 0 cs
  let singles := longestRun '\x27' 0 cs
  if !controls && !backslash && doubles = 0 && !lines then .basic
  else if !controls && singles = 0 && !lines then .literal
  else if !controls && !backslash && doubles ≤ 2 then .basicLines
  else if !controls && singles ≤ 2 then .literalLines
  else if lines then .basicLines
  else .basic

end StringForm

def hexDigit (n : Nat) : Char := (Nat.digitChar (n % 16)).toUpper

/-- What stands for a character in a string with escapes; `lines` if line feeds stand for themselves. -/
def escapeChar (lines : Bool) (c : Char) : List Char :=
  if c.toNat = 8 then ['\\', 'b']
  else if c = '\t' then ['\\', 't']
  else if c = '\n' then if lines then ['\n'] else ['\\', 'n']
  else if c.toNat = 12 then ['\\', 'f']
  else if c = '\r' then ['\\', 'r']
  else if c = '\\' then ['\\', '\\']
  else if c.toNat < 0x20 ∨ c.toNat = 0x7F then
    ['\\', 'u', '0', '0', hexDigit (c.toNat / 16), hexDigit c.toNat]
  else [c]

/-- A text with escapes; double quotes stand for themselves in runs of at most `quotes`, of which `run` have
just been written. -/
def escape (lines : Bool) (quotes : Nat) : Nat → List Char → List Char
  | _, [] => []
  | run, c :: cs =>
    if c = '"' then
      if run < quotes then '"' :: escape lines quotes (run + 1) cs
      else '\\' :: '"' :: escape lines quotes 0 cs
    else escapeChar lines c ++ escape lines quotes 0 cs

/-- A line feed at the start of several lines, where it does not count. -/
def leadIn (cs : List Char) : List Char := if cs.contains '\n' then ['\n'] else []

def quoteAs (form : StringForm) (cs : List Char) : List Char :=
  match form with
  | .basic => '"' :: escape false 0 0 cs ++ ['"']
  | .literal => '\x27' :: cs ++ ['\x27']
  | .basicLines =>
    ['"', '"', '"'] ++ leadIn cs ++ escape true 2 0 cs ++ ['"', '"', '"']
  | .literalLines =>
    ['\x27', '\x27', '\x27'] ++ leadIn cs ++ cs ++ ['\x27', '\x27', '\x27']

def quote (s : String) : List Char := quoteAs (StringForm.choose s.toList) s.toList

end FieldReplica.Toml
