import FieldReplica.Text.Decimal
import FieldReplica.Url.Host

/-!
# URLs

A URL in the form in which it is compared and written: the scheme and the host in lower case, the port
only where it is not that of the scheme, no dot segments, and every part percent-encoded. Reading
brings a text into that form. The special schemes always have a host and a path.
-/
namespace FieldReplica

/-- What follows the host. -/
inductive Url.Path where
  /-- Text without structure, of a URL that no path can be added to. -/
  | opaqueText (text : List Char)
  /-- Segments, each after a slash. -/
  | segments (list : List (List Char))
deriving DecidableEq, Repr

structure Url where
  scheme : List Char
  /-- The encoded name and password, as they stand before the at sign. -/
  userinfo : List Char
  host : Option Url.Host
  port : Option Nat
  path : Url.Path
  query : Option (List Char)
  fragment : Option (List Char)
deriving DecidableEq, Repr

namespace Url

/-- Kinds of schemes, by what may follow them. -/
inductive SchemeKind where
  | web
  | file
  | other
deriving DecidableEq

def schemeKind (scheme : List Char) : SchemeKind :=
  if ["http", "https", "ws", "wss", "ftp"].contains (String.ofList scheme) then .web
  else if scheme = "file".toList then .file
  else .other

/-- Whether a backslash is a slash and a host is a domain. -/
def SchemeKind.special : SchemeKind → Bool
  | .other => false
  | _ => true

/-- The port that a scheme uses where none is given. -/
def defaultPort? (scheme : List Char) : Option Nat :=
  match String.ofList scheme with
  | "http" | "ws" => some 80
  | "https" | "wss" => some 443
  | "ftp" => some 21
  | _ => none

/-- Whether a character is left out wherever it stands. -/
def isDropped (c : Char) : Bool := c = '\t' || c = '\n' || c = '\r'

/-- The text without what does not count: controls and spaces at its ends, tabs and line ends. -/
def strip (cs : List Char) : List Char :=
  let isEdge := fun (c : Char) => c.toNat ≤ 0x20
  (((cs.dropWhile isEdge).reverse.dropWhile isEdge).reverse).filter (!isDropped ·)

def isSchemeChar (c : Char) : Bool := c.isAlphanum || c = '+' || c = '-' || c = '.'

/-- The scheme of a text, and what follows its colon. -/
def takeScheme? (cs : List Char) : Option (List Char × List Char) :=
  match cs.head?, cs.dropWhile isSchemeChar with
  | some c, ':' :: rest =>
    if c.isAlpha then some ((cs.takeWhile isSchemeChar).map Char.toLower, rest) else none
  | _, _ => none

/-- Whether a character ends the host and what stands with it. -/
def endsAuthority (special : Bool) (c : Char) : Bool :=
  c = '/' || c = '?' || c = '#' || (special && c = '\\')

/-- The text before the last of a character, and the text after it. -/
def splitLast? (sep : Char) (cs : List Char) : Option (List Char × List Char) :=
  if cs.contains sep then
    let back := cs.reverse
    some ((back.dropWhile (· ≠ sep)).tail.reverse, (back.takeWhile (· ≠ sep)).reverse)
  else none

/-- A name and a password, encoded; a colon with nothing after it is left out. -/
def encodeUserinfo (cs : List Char) : List Char :=
  let name := cs.takeWhile (· ≠ ':')
  match cs.dropWhile (· ≠ ':') with
  | _ :: c :: password => encode .userinfo name ++ ':' :: encode .userinfo (c :: password)
  | _ => encode .userinfo name

/-- The host at the start of a text, and the rest from its colon on. -/
def takeHost : Bool → List Char → List Char × List Char
  | _, [] => ([], [])
  | inBrackets, c :: cs =>
    if c = ':' ∧ ¬inBrackets then ([], c :: cs)
    else
      let (host, rest) := takeHost (if c = '[' then true else if c = ']' then false else inBrackets) cs
      (c :: host, rest)

/-- A port; none for that of the scheme or for no digits. -/
def parsePort (scheme cs : List Char) : Except ParseError (Option Nat) :=
  if cs = [] then .ok none
  else
    match Text.Decimal.digits? cs with
    | none => .error .port
    | some n =>
      if 65535 < n then .error .port
      else .ok (if defaultPort? scheme = some n then none else some n)

/-- A host and a port with who asks, and the text that follows them. -/
structure Authority where
  userinfo : List Char
  host : Host
  port : Option Nat
  rest : List Char

/-- The host and the port at the start of a text; a backslash ends a port under any scheme. -/
def parseHostPort (scheme userinfo cs : List Char) : Except ParseError Authority := do
  let special := (schemeKind scheme).special
  let (text, rest) := takeHost false cs
  if special ∧ text = [] then throw .emptyHost
  let host ← if special then Host.parseSpecial text else Host.parseOpaque text
  match rest with
  | ':' :: rest =>
    if host = .name [] then throw .emptyHost
    let port ← parsePort scheme (rest.takeWhile (· ≠ '\\'))
    return ⟨userinfo, host, port, rest.dropWhile (· ≠ '\\')⟩
  | rest => return ⟨userinfo, host, none, rest⟩

/-- The part of a URL that names its host, in the text `cs`, before the text `rest`. -/
def parseAuthority (scheme cs rest : List Char) : Except ParseError Authority := do
  match splitLast? '@' cs with
  | none => parseHostPort scheme [] cs
  | some (user, cs) =>
    if user = [] ∧ cs = [] ∧ rest ≠ [] then throw .emptyHost
    let a ← parseHostPort scheme (encodeUserinfo user) cs
    if a.host = .name [] ∧ a.userinfo ≠ [] then throw .emptyHost
    return a

/-- Whether a segment stands for the path it is in. -/
def isSingleDot (cs : List Char) : Bool :=
  let s := String.ofList (cs.map Char.toLower)
  s = "." || s = "%2e"

/-- Whether a segment stands for the path one segment shorter. -/
def isDoubleDot (cs : List Char) : Bool :=
  let s := String.ofList (cs.map Char.toLower)
  s = ".." || s = ".%2e" || s = "%2e." || s = "%2e%2e"

/-- A path in which dot segments have had their effect, after the segments `done`. -/
def resolveDots (done : List (List Char)) : List (List Char) → List (List Char)
  | [] => done
  | [last] =>
    if isDoubleDot last then done.dropLast ++ [[]]
    else if isSingleDot last then done ++ [[]]
    else done ++ [last]
  | seg :: rest =>
    if isDoubleDot seg then resolveDots done.dropLast rest
    else if isSingleDot seg then resolveDots done rest
    else resolveDots (done ++ [seg]) rest

/-- The segments of a path that follows its first slash. -/
def parseSegments (special : Bool) (cs : List Char) : List (List Char) :=
  let cs := if special then cs.map fun c => if c = '\\' then '/' else c else cs
  resolveDots [] ((splitOn '/' cs).map (encode .path))

def parsePath (special : Bool) : List Char → List (List Char)
  | [] => if special then [[]] else []
  | c :: cs =>
    if c = '/' ∨ (special ∧ c = '\\') then parseSegments special cs
    else parseSegments special (c :: cs)

/-- The text before a query or a fragment, and each of them. -/
def takeTail (special : Bool) (cs : List Char) :
    List Char × Option (List Char) × Option (List Char) :=
  let front := cs.takeWhile (· ≠ '#')
  let fragment := match cs.dropWhile (· ≠ '#') with
    | _ :: f => some (encode .fragment f)
    | [] => none
  let query := match front.dropWhile (· ≠ '?') with
    | _ :: q => some (encode (if special then .specialQuery else .query) q)
    | [] => none
  (front.takeWhile (· ≠ '?'), query, fragment)

/-- Whether a text is a letter and a colon (or a bar), which names a drive and no host. -/
def isDriveLetter : List Char → Bool
  | [c, d] => c.isAlpha && (d = ':' || d = '|')
  | _ => false

/-- The host of a `file` URL, and the text that follows it. -/
def parseFileHost (cs : List Char) : Except ParseError Authority := do
  let text := cs.takeWhile (!endsAuthority true ·)
  let rest := cs.dropWhile (!endsAuthority true ·)
  if isDriveLetter text then return ⟨[], .name [], none, '/' :: cs⟩
  if text = [] then return ⟨[], .name [], none, rest⟩
  let host ← Host.parseSpecial text
  return ⟨[], if host = .name "localhost".toList then .name [] else host, none, rest⟩

/-- What stands between the scheme and the path; none if nothing does. -/
def parseFront (scheme cs : List Char) : Except ParseError (Option Authority) := do
  let kind := schemeKind scheme
  let afterSlashes := fun cs => do
    let rest := cs.dropWhile (!endsAuthority kind.special ·)
    let a ← parseAuthority scheme (cs.takeWhile (!endsAuthority kind.special ·)) rest
    return some { a with rest := a.rest ++ rest }
  match kind, cs with
  | .web, cs => afterSlashes (cs.dropWhile fun c => c = '/' || c = '\\')
  | .other, '/' :: '/' :: cs => afterSlashes cs
  | .other, _ => return none
  | .file, a :: b :: cs =>
    if (a = '/' ∨ a = '\\') ∧ (b = '/' ∨ b = '\\') then some <$> parseFileHost cs
    else return some ⟨[], .name [], none, a :: b :: cs⟩
  | .file, cs => return some ⟨[], .name [], none, cs⟩

def parse (s : String) : Except ParseError Url := do
  let some (scheme, cs) := takeScheme? (strip s.toList) | throw .relative
  let special := (schemeKind scheme).special
  match ← parseFront scheme cs with
  | some a =>
    let (path, query, fragment) := takeTail special a.rest
    return ⟨scheme, a.userinfo, some a.host, a.port, .segments (parsePath special path), query,
      fragment⟩
  | none =>
    let (path, query, fragment) := takeTail special cs
    let path := match path with
      | '/' :: path => .segments (parseSegments special path)
      | path => .opaqueText (encode .control path)
    return ⟨scheme, [], none, none, path, query, fragment⟩

def Path.toChars : Path → List Char
  | .opaqueText text => text
  | .segments list => list.flatMap fun seg => '/' :: seg

def toChars (u : Url) : List Char :=
  let port := match u.port with
    | some p => ':' :: Nat.toDigits 10 p
    | none => []
  let front := match u.host with
    | some h => '/' :: '/' :: (if u.userinfo = [] then [] else u.userinfo ++ ['@']) ++ h.toChars ++ port
    | none => []
  let query := match u.query with
    | some q => '?' :: q
    | none => []
  let fragment := match u.fragment with
    | some f => '#' :: f
    | none => []
  u.scheme ++ ':' :: front ++ u.path.toChars ++ query ++ fragment

def toText (u : Url) : String := String.ofList u.toChars

end Url
end FieldReplica
