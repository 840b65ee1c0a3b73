import FieldReplica.Text.Unprintable

/-!
# Quoted text

Text between double quotes for messages: the quote and the backslash are escaped, tab, carriage
return, line feed and NUL have short escapes, and a character that would not show is given by its
code point.
-/
namespace FieldReplica.Text.Quoted

/-- A code point in lower-case hexadecimal between braces. -/
def byNumber (c : Char) : List Char :=
  '\\' :: 'u' :: '\x7b' :: Nat.toDigits 16 c.toNat ++ ['\x7d']

/-- What stands for one character between the quotes. -/
def escapeChar (c : Char) : List Char :=
  if c = '"' ∨ c = '\\' then ['\\', c]
  else if c = '\t' then ['\\', 't']
  else if c = '\r' then ['\\', 'r']
  else if c = '\n' then ['\\', 'n']
  else if c.toNat = 0 then ['\\', '0']
  else if isUnprintable c then byNumber c
  else [c]

def quote (s : String) : String :=
  String.ofList ('"' :: s.toList.flatMap escapeChar ++ ['"'])

end FieldReplica.Text.Quoted
