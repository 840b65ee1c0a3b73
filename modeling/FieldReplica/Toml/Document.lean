import FieldReplica.Toml.Reader

/-!
# Reading documents

A document is a sequence of lines: comments, members and headers of tables, to which the members after them
belong. A text may begin with a byte order mark.
-/
namespace FieldReplica.Toml

/-- What has been read of a document: its table, and the path of the table that members go to. -/
structure Draft where
  root : Members
  current : List Key

namespace Draft

def change (d : Draft) (current : List Key) (v : Except Conflict Value) : Except Conflict Draft := do
  match ← v with
  | .table _ _ members => return ⟨members, current⟩
  | _ => return { d with current }

/-- The end of a table's stretch moves to the end of its last member. -/
def stretch (span : Option Span) (v : Value) : Option Span :=
  match span, v.span? with
  | some a, some b => some ⟨a.start, b.stop⟩
  | _, _ => span

def member (d : Draft) (ks : List Key) (v : Value) : Except Conflict Draft :=
  d.change d.current <|
    descend false
      (fun kind span members => do
        match ← assign (some (names d.current)) ks v kind span members with
        | .table kind span members => return .table kind (stretch span v) members
        | v => return v)
      [] d.current .header none d.root

def header (d : Draft) (ks : List Key) (span : Span) : Except Conflict Draft :=
  match ks.getLast? with
  | none => .ok d
  | some k =>
    let path := ks.dropLast
    d.change ks <|
      descend false
        (fun kind outer members => do
          let members ← alter k (fun old =>
            match old with
            | none => .ok (.table .header (some span) [])
            | some (.table .implied _ inner) => .ok (.table .header (some span) inner)
            | some _ => .error (.duplicate k.name (some (names path)))) members
          return .table kind outer members)
        [] path .header none d.root

/-- Take in the header of one more table under a name. -/
def listHeader (d : Draft) (ks : List Key) (span : Span) : Except Conflict Draft :=
  match ks.getLast? with
  | none => .ok d
  | some k =>
    let path := ks.dropLast
    d.change ks <|
      descend false
        (fun kind outer members => do
          let table := Value.table .header (some span) []
          let members ← alter k (fun old =>
            match old with
            | none => .ok (.tables [table])
            | some (.tables items) => .ok (.tables (items ++ [table]))
            | some _ => .error (.duplicate k.name (some (names path)))) members
          return .table kind outer members)
        [] path .header none d.root

end Draft

def trailing : Reader Unit := lineEnd.settled.expecting ["newline", "\x60#\x60"]

def member : Reader (List Key × Value) := fun cs => do
  let (ks, rest) ← key cs
  let (_, rest) ← (Reader.char '=').expecting ["\x60.\x60", "\x60=\x60"] rest
  let (v, rest) ← value maxDepth (skipBlanks rest)
  let (_, rest) ← trailing rest
  return ((ks, v), rest)

/-- A header after its opening brackets. -/
def headerBody (close : List Char) (shown : String) : Reader (List Key) := fun cs => do
  let (ks, rest) ← key cs
  let (_, rest) ← (Reader.word close).expecting ["\x60.\x60", shown] rest
  return (ks, rest)

/-- Take in what begins a line, which is neither blank nor a comment. -/
def line (d : Draft) : Reader Draft := fun cs =>
  match cs with
  | '[' :: '[' :: rest => Reader.reading "table header" (header rest Draft.listHeader
      (headerBody [']', ']'] "\x60]]\x60")) cs
  | '[' :: rest => Reader.reading "table header" (header rest Draft.header
      (headerBody [']'] "\x60]\x60")) cs
  | cs => member.refine (fun (ks, v) => (d.member ks v).mapError (·.message)) cs
where
  header (after : List Char) (take : Draft → List Key → Span → Except Conflict Draft)
      (body : Reader (List Key)) : Reader Draft := fun cs => do
    let (ks, rest) ← body after
    let span : Span := ⟨cs.length, rest.length⟩
    let (_, rest) ← trailing rest
    match take d ks span with
    | .ok d => return (d, rest)
    | .error c => throw (.because cs c.message)

def lines : Nat → Draft → List Char → Except Trouble Draft
  | 0, _, cs => .error (.here cs)
  | fuel + 1, d, cs =>
    match skipBlanks cs with
    | [] => .ok d
    | '#' :: rest =>
      match lineEnd ('#' :: rest) with
      | .ok (_, rest) => lines fuel d rest
      | .error t => .error t
    | cs =>
      match newline? cs with
      | some rest => lines fuel d rest
      | none =>
        if cs.head? = some '\r' then .error (.here cs)
        else
          match line d cs with
          | .ok (d, rest) => lines fuel d rest
          | .error t => .error t

/-- The text without a byte order mark. -/
def withoutMark : List Char → List Char
  | '\uFEFF' :: cs => cs
  | cs => cs

def read (cs : List Char) : Except Trouble Members := do
  let cs := withoutMark cs
  return (← lines (cs.length + 1) ⟨[], []⟩ cs).root

end FieldReplica.Toml
