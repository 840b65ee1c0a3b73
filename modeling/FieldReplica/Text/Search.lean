/-!
# Searching text

Whether a text holds another one, and texts filled up to a width.
-/
namespace FieldReplica.Text

def startsWith : List Char → List Char → Bool
  | _, [] => true
  | [], _ :: _ => false
  | c :: cs, d :: ds => c = d && startsWith cs ds

def holds : List Char → List Char → Bool
  | [], part => startsWith [] part
  | c :: cs, part => startsWith (c :: cs) part || holds cs part

/-- A text with blanks after it up to a width. -/
def padRight (width : Nat) (s : String) : String := s.pushn ' ' (width - s.length)

end FieldReplica.Text
