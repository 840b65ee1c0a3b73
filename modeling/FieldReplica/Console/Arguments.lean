import FieldReplica.Row.Names
import FieldReplica.Text.Decimal

/-!
# The command line

What a user asks for. A command is named by one or two words; its options follow in any order, each at most
once, with their values after them or after an equals sign. A value that begins with a dash has to stand after
an equals sign.
-/
namespace FieldReplica.Console

/-- The tables that can be watched. -/
inductive WatchTable where
  | entities
  | taskEvents
deriving DecidableEq, Repr

/-- A command and its options; `json` asks for JSON even on a terminal. -/
inductive Invocation where
  | watch (project : Int64) (table : WatchTable) (json : Bool)
  | entityList (project : Int64) (task : Option Int64) (json : Bool)
  | entitySetStatus (project : Int64) (entity : String) (status : EntityStatus) (json : Bool)
  | eventAdd (project task : Int64) (event : TaskEventKind) (username : String) (comment : Option String)
      (status : Option TaskStatus) (json : Bool)
  | eventHistory (project task : Int64) (json : Bool)
  | configShow (file : Option String) (json : Bool)
  | configPath (json : Bool)
deriving DecidableEq, Repr

/-- Why a command line is not understood. -/
inductive UsageError where
  | noCommand
  | unknownCommand (words : List String)
  | unexpected (argument : String)
  | missingValue (option : String)
  | repeated (option : String)
  | missingOption (option : String)
  | badValue (option value : String)
deriving DecidableEq, Repr

def UsageError.message : UsageError → String
  | .noCommand => "a command is needed"
  | .unknownCommand words => "unknown command " ++ String.intercalate " " words
  | .unexpected argument => "unexpected argument " ++ argument
  | .missingValue option => "a value is needed for --" ++ option
  | .repeated option => "--" ++ option ++ " can be given only once"
  | .missingOption option => "--" ++ option ++ " is needed"
  | .badValue option value => "invalid value " ++ value ++ " for --" ++ option

namespace Arguments

/-- The options that were given, each with its value if it has one. -/
abbrev Given := List (String × Option String)

/-- An option of a command, and whether it has a value. -/
structure Spec where
  name : String
  hasValue : Bool

/-- The name of an option, and the value after an equals sign. -/
def splitOption? (arg : String) : Option (String × Option String) :=
  match arg.toList with
  | '-' :: '-' :: c :: cs =>
    let name := String.ofList ((c :: cs).takeWhile (· ≠ '='))
    match (c :: cs).dropWhile (· ≠ '=') with
    | _ :: value => some (name, some (String.ofList value))
    | [] => some (name, none)
  | _ => none

/-- Whether an argument may be the value of the option before it. -/
def isValue (arg : String) : Bool :=
  match arg.toList with
  | '-' :: _ :: _ => false
  | _ => true

def options (specs : List Spec) : Given → List String → Except UsageError Given
  | given, [] => .ok given
  | given, arg :: args => do
    let some (name, value) := splitOption? arg | throw (.unexpected arg)
    let some spec := specs.find? (·.name = name) | throw (.unexpected arg)
    if given.any (·.1 = name) then throw (.repeated name)
    match spec.hasValue, value, args with
    | false, none, args => options specs (given ++ [(name, none)]) args
    | false, some _, _ => throw (.unexpected arg)
    | true, some v, args => options specs (given ++ [(name, some v)]) args
    | true, none, v :: args =>
      if isValue v then options specs (given ++ [(name, some v)]) args else throw (.missingValue name)
    | true, none, [] => throw (.missingValue name)

variable {α : Type}

def optional (read : String → Option α) (name : String) (given : Given) : Except UsageError (Option α) :=
  match given.find? (·.1 = name) with
  | some (_, some v) =>
    match read v with
    | some a => .ok (some a)
    | none => .error (.badValue name v)
  | _ => .ok none

def required (read : String → Option α) (name : String) (given : Given) : Except UsageError α := do
  match ← optional read name given with
  | some a => return a
  | none => throw (.missingOption name)

def flag (name : String) (given : Given) : Bool := given.any (·.1 = name)

def number? (s : String) : Option Int64 := Text.Decimal.int64? s.toList

def watchTable? : String → Option WatchTable
  | "entities" => some .entities
  | "task-events" => some .taskEvents
  | _ => none

def file? (s : String) : Option String := if s = "" then none else some s

/-- The options with values and the flag that every command has. -/
def specs (names : List String) : List Spec := names.map (⟨·, true⟩) ++ [⟨"json", false⟩]

def parse : List String → Except UsageError Invocation
  | "watch" :: args => do
    let o ← options (specs ["project", "table"]) [] args
    return .watch (← required number? "project" o)
      ((← optional watchTable? "table" o).getD .entities) (flag "json" o)
  | "entity" :: "list" :: args => do
    let o ← options (specs ["project", "task"]) [] args
    return .entityList (← required number? "project" o) (← optional number? "task" o) (flag "json" o)
  | "entity" :: "set-status" :: args => do
    let o ← options (specs ["project", "entity", "status"]) [] args
    return .entitySetStatus (← required number? "project" o) (← required some "entity" o)
      (← required Named.ofText? "status" o) (flag "json" o)
  | "event" :: "add" :: args => do
    let o ← options (specs ["project", "task", "event", "username", "comment", "status"]) [] args
    return .eventAdd (← required number? "project" o) (← required number? "task" o)
      (← required Named.ofText? "event" o) (← required some "username" o) (← optional some "comment" o)
      (← optional Named.ofText? "status" o) (flag "json" o)
  | "event" :: "history" :: args => do
    let o ← options (specs ["project", "task"]) [] args
    return .eventHistory (← required number? "project" o) (← required number? "task" o) (flag "json" o)
  | "config" :: "show" :: args => do
    let o ← options (specs ["file"]) [] args
    return .configShow (← optional file? "file" o) (flag "json" o)
  | "config" :: "path" :: args => do
    let o ← options (specs []) [] args
    return .configPath (flag "json" o)
  | [] => .error .noCommand
  | words => .error (.unknownCommand words)

end Arguments
end FieldReplica.Console
