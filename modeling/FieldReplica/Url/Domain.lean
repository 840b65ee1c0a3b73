import FieldReplica.Text.Folding
import FieldReplica.Text.Utf8
import FieldReplica.Url.Address
import FieldReplica.Url.Punycode

/-!
# Domains

The ASCII form of a domain, in which hosts are compared and written. Each character is first replaced
by the one it stands for and dropped if it has no weight in a name; then a label outside ASCII is written
with the mark `xn--` before it. A label that has the mark already has to stand for such a label.

The characters are taken one at a time: none stands for several, marks are not joined with the letters before
them, and nothing is asked of the direction of a text or of what stands beside a joiner.
-/
namespace FieldReplica.Url.Domain

/-- Whether a character cannot stand in a domain: ASCII that has a meaning of its own in a URL,
controls, joiners, separators of lines and directions of text, private use and code points without a character. -/
def isForbidden (c : Char) : Bool :=
  let n := c.toNat
  n ≤ 0x20 || (0x7F ≤ n && n ≤ 0x9F) || (0x200C ≤ n && n ≤ 0x200F) || (0x2028 ≤ n && n ≤ 0x202F) ||
    (0xE000 ≤ n && n ≤ 0xF8FF) || (0xFDD0 ≤ n && n ≤ 0xFDEF) || 0xFFFE ≤ n % 0x10000 ||
    (0xFFEF ≤ n && n ≤ 0xFFFD) || 0xE0000 ≤ n ||
    ['%', '#', '/', ':', '<', '>', '?', '@', '[', '\\', ']', '^', '|'].contains c

/-- Whether a character is dropped from a name: a soft hyphen, a joiner of width zero, a variant mark. -/
def isIgnored (c : Char) : Bool :=
  let n := c.toNat
  [0xAD, 0x34F, 0x115F, 0x1160, 0x17B4, 0x17B5, 0x200B, 0x3164, 0xFEFF, 0xFFA0].contains n ||
    (0x180B ≤ n && n ≤ 0x180F) || (0x2060 ≤ n && n ≤ 0x2064) || (0x206A ≤ n && n ≤ 0x206F) ||
    (0xFE00 ≤ n && n ≤ 0xFE0F) || (0xE0100 ≤ n && n ≤ 0xE01EF)

/-- The characters of a domain, each replaced by the one it stands for. -/
def normalise (cs : List Char) : List Char := (cs.filter (!isIgnored ·)).map Text.fold

/-- Whether a label begins with a mark that joins the character before it. -/
def beginsWithMark : List Char → Bool
  | c :: _ => 0x300 ≤ c.toNat && c.toNat ≤ 0x36F
  | [] => false

def isAscii (cs : List Char) : Bool := cs.all (·.toNat < 0x80)

/-- Whether a label outside ASCII may stand behind a marked one. -/
def isProper (label : List Char) : Bool :=
  !isAscii label && normalise label = label && !label.any isForbidden && !beginsWithMark label

/-- The ASCII form of a label. -/
def labelToAscii? : List Char → Option (List Char)
  | 'x' :: 'n' :: '-' :: '-' :: cs =>
    (Punycode.decode? cs).bind fun label =>
      if isProper label then some ("xn--".toList ++ Punycode.encode label) else none
  | label =>
    if isAscii label then some label
    else if beginsWithMark label then none
    else some ("xn--".toList ++ Punycode.encode label)

/-- The ASCII form of a domain given by its octets; none if it has no such form. -/
def toAscii? (bs : List UInt8) : Option (List Char) := do
  let s ← Text.Utf8.decode? bs
  let cs := normalise s.toList
  if cs.any isForbidden then none
  else
    let labels ← (splitOn '.' cs).mapM labelToAscii?
    some (List.intercalate ['.'] labels)

end FieldReplica.Url.Domain
