import FieldReplica.Toml.Numbers

/-!
# Reading values and keys

Values nest: a list may go over several lines and may have a comma at its end, a table between braces may not.
A key has one or more parts, each a bare word or a string of one line.
-/
namespace FieldReplica.Toml

/-- What is wrong with the tables of a document. -/
inductive Conflict where
  /-- A key is given twice; the path is that of its table, where it is known. -/
  | duplicate (key : String) (table : Option (List String))
  /-- The part of a key names something that is no table. -/
  | notTable (path : List String) (found : String)
deriving DecidableEq, Repr

def Conflict.message : Conflict → String
  | .duplicate key none => "duplicate key \x60" ++ key ++ "\x60"
  | .duplicate key (some []) => "duplicate key \x60" ++ key ++ "\x60 in document root"
  | .duplicate key (some path) =>
    "duplicate key \x60" ++ key ++ "\x60 in table \x60" ++ String.intercalate "." path ++ "\x60"
  | .notTable path found =>
    "dotted key \x60" ++ String.intercalate "." path ++ "\x60 attempted to extend non-table type (" ++ found ++
      ")"

/-! ### Keys -/

def isBareChar (c : Char) : Bool := c.isAlphanum || c = '-' || c = '_'

def simpleKey : Reader String
  | '"' :: cs => do
    let (s, rest) ← basicString cs
    return (String.ofList s, rest)
  | '\x27' :: cs => do
    let (s, rest) ← literalString cs
    return (String.ofList s, rest)
  | cs =>
    match cs.takeWhile isBareChar with
    | [] => .error (.here cs)
    | s => .ok (String.ofList s, cs.dropWhile isBareChar)

def keyParts : Nat → Reader (List Key)
  | 0, cs => .error (.here cs)
  | fuel + 1, cs => do
    let ((span, s), rest) ← simpleKey.spanned (skipBlanks cs)
    let k : Key := ⟨s, span⟩
    match skipBlanks rest with
    | '.' :: more =>
      match keyParts fuel more with
      | .ok (ks, rest) => return (k :: ks, rest)
      | .error t => if t.settled then throw t else return ([k], '.' :: more)
    | rest => return ([k], rest)

def key : Reader (List Key) := Reader.reading "key" fun cs => keyParts (cs.length + 1) cs

/-! ### Tables -/

/-- Change the member under a key, or add it at the end. -/
def alter (k : Key) (f : Option Value → Except Conflict Value) : Members → Except Conflict Members
  | [] => do return [(k, ← f none)]
  | (k', v) :: rest =>
    if k'.name = k.name then do return (k', ← f (some v)) :: rest
    else do return (k', v) :: (← alter k f rest)

def names (ks : List Key) : List String := ks.map (·.name)

/-- Change the table at the end of a path, making the tables on the way. A path of a `dotted` key does not
pass through a table that has a header or braces of its own. -/
def descend (dotted : Bool) (f : TableKind → Option Span → Members → Except Conflict Value) :
    List Key → List Key → TableKind → Option Span → Members → Except Conflict Value
  | _, [], kind, span, members => f kind span members
  | done, k :: ks, kind, span, members => do
    let done := done ++ [k]
    let members ← alter k (fun old =>
      match old with
      | none => descend dotted f done ks (if dotted then .dotted else .implied) none []
      | some (.table kind span inner) =>
        if kind = .braces then .error (.notTable (names done) "inline table")
        else if dotted ∧ kind = .header then .error (.duplicate k.name none)
        else descend dotted f done ks kind span inner
      | some (.tables items) =>
        match items.getLast? with
        | some (.table kind span inner) => do
          let last ← descend dotted f done ks kind span inner
          return .tables (items.dropLast ++ [last])
        | _ => .ok (.tables items)
      | some v => .error (.notTable (names done) v.typeName)) members
    return .table kind span members

/-- Add a member under a key of the table `at_`. -/
def insertLeaf (table : Option (List String)) (path : List Key) (k : Key) (v : Value) (kind : TableKind)
    (span : Option Span) (members : Members) : Except Conflict Value := do
  if path ≠ [] ∧ kind ≠ .dotted then throw (.duplicate k.name none)
  let members ← alter k (fun old =>
    match old with
    | none => .ok v
    | some _ => .error (.duplicate k.name table)) members
  return .table kind span members

/-- Add a member under a key with one or more parts to a table. -/
def assign (table : Option (List String)) (ks : List Key) (v : Value) (kind : TableKind) (span : Option Span)
    (members : Members) : Except Conflict Value :=
  match ks.getLast? with
  | none => .ok (.table kind span members)
  | some k =>
    let path := ks.dropLast
    descend true (insertLeaf table path k v) [] path kind span members

/-- The members that keys and values between braces make. -/
def bracedMembers : Members → List (List Key × Value) → Except Conflict Members
  | members, [] => .ok members
  | members, (ks, v) :: rest => do
    match ← assign none ks v .braces none members with
    | .table _ _ members => bracedMembers members rest
    | _ => bracedMembers members rest

/-! ### Values -/

/-- The items of a list, up to what is no item. -/
def arrayItems (item : Reader Value) : Nat → Reader (List Value)
  | 0, cs => .error (.here cs)
  | fuel + 1, cs =>
    match item (skipLines (cs.length + 1) cs) with
    | .error t => if t.settled then .error t else .ok ([], skipLines (cs.length + 1) cs)
    | .ok (v, rest) =>
      match skipLines (rest.length + 1) rest with
      | ',' :: rest => do
        let (vs, rest) ← arrayItems item fuel rest
        return (v :: vs, rest)
      | rest => .ok ([v], rest)

/-- A list after its opening bracket. -/
def arrayBody (item : Reader Value) : Reader (List Value) := Reader.settled fun cs => do
  let (vs, rest) ← arrayItems item (cs.length + 1) cs
  let (_, rest) ← (Reader.char ']').reading "array" |>.expecting ["\x60]\x60"] <| rest
  return (vs, rest)

/-- A key and a value between braces. -/
def bracedMember (item : Reader Value) : Reader (List Key × Value) := fun cs => do
  let (ks, rest) ← key cs
  let (_, rest) ← (Reader.char '=').settled.expecting ["\x60.\x60", "\x60=\x60"] rest
  let (v, rest) ← item.settled (skipBlanks rest)
  return ((ks, v), skipBlanks rest)

/-- Keys and values between braces; none follows a comma at the end. -/
def bracedItems (item : Reader Value) : Nat → Reader (List (List Key × Value))
  | 0, cs => .error (.here cs)
  | fuel + 1, cs => do
    let (m, rest) ← bracedMember item cs
    match rest with
    | ',' :: more =>
      match bracedItems item fuel more with
      | .ok (ms, rest) => return (m :: ms, rest)
      | .error t => if t.settled then throw t else return ([m], ',' :: more)
    | rest => return ([m], rest)

/-- A table after its opening brace. -/
def bracedBody (item : Reader Value) : Reader Members := Reader.settled fun cs => do
  let (ms, rest) ← match bracedItems item (cs.length + 1) cs with
    | .ok r => pure r
    | .error t => if t.settled then throw t else pure ([], skipBlanks cs)
  let members ← match bracedMembers [] ms with
    | .ok members => pure members
    | .error c => throw (.because cs c.message)
  let (_, rest) ← (Reader.char '\x7d').reading "inline table" |>.expecting ["\x60\x7d\x60"] <| rest
  return (members, rest)

/-- What is said of a text that looks like a string without quotes. -/
def unquoted {α : Type} (r : Reader α) : Reader α :=
  r.reading "string" |>.expecting ["\x60\"\x60", "\x60\x27\x60"]

def scalarWord (w : String) (s : Scalar) : Reader Scalar :=
  unquoted fun cs => do
    let (_, rest) ← (Reader.word w.toList).settled cs
    return (s, rest)

def scalarMap {α : Type} (f : α → Scalar) (r : Reader α) : Reader Scalar := fun cs => do
  let (a, rest) ← r cs
  return (f a, rest)

def scalar : Reader Scalar := fun cs =>
  match cs with
  | [] => .error (.here [])
  | c :: _ =>
    if c = '"' ∨ c = '\x27' then scalarMap .string string cs
    else if c = '+' ∨ c = '-' ∨ c.isDigit then
      ((scalarMap (fun _ => .moment) moment).orElse
        ((scalarMap .float real).orElse (scalarMap .integer integer))) cs
    else if c = '_' then (scalarMap .integer integer).expecting ["leading digit"] cs
    else if c = '.' then (scalarMap .float real).expecting ["leading digit"] cs
    else if c = 't' then scalarWord "true" (.boolean true) cs
    else if c = 'f' then scalarWord "false" (.boolean false) cs
    else if c = 'i' ∨ c = 'n' then unquoted (scalarMap .float special) cs
    else unquoted Reader.fail cs

/-- The deepest nesting of lists and tables between braces. -/
def maxDepth : Nat := 79

/-- A value with at most `depth` lists and tables in one another. -/
def value : Nat → Reader Value
  | depth, '[' :: cs =>
    match depth with
    | 0 => .error { Trouble.because ('[' :: cs) "recursion limit exceeded" with settled := true }
    | depth + 1 => do
      let (vs, rest) ← arrayBody (value depth) cs
      return (.array ⟨cs.length + 1, rest.length⟩ vs, rest)
  | depth, '\x7b' :: cs =>
    match depth with
    | 0 => .error { Trouble.because ('\x7b' :: cs) "recursion limit exceeded" with settled := true }
    | depth + 1 => do
      let (members, rest) ← bracedBody (value depth) cs
      return (.table .braces (some ⟨cs.length + 1, rest.length⟩) members, rest)
  | _, cs => do
    let ((span, s), rest) ← scalar.spanned cs
    return (.scalar span s, rest)

end FieldReplica.Toml
