import FieldReplica.Json.Decoder

/-!
# Named values

The closed sets of names in the rows: the state of a feature, the kinds of task activity and the
state of a task. Names are upper-case; people may type them in any case. An activity moves a task to
a state (`TaskEventKind.resultingStatus`), or leaves it where it was.
-/
namespace FieldReplica

/-- A finite set of values, each with a name. -/
class Named (α : Type) where
  /-- What the values are, for messages. -/
  kind : String
  all : List α
  name : α → String

namespace Named

variable {α : Type} [Named α]

/-- The value with exactly this name. -/
def ofName? (s : String) : Option α := all.find? fun a => name a = s

/-- Two texts that differ in the case of ASCII letters at most. -/
def sameLetters (s t : String) : Bool := s.toList.map Char.toLower = t.toList.map Char.toLower

/-- The value whose name a person typed, in any case. -/
def ofText? (s : String) : Option α := all.find? fun a => sameLetters (name a) s

/-- What is said about a text that names no value. -/
def unknownText (α : Type) [Named α] (s : String) : String :=
  "unknown " ++ kind α ++ ": " ++ s

def toJson (a : α) : Json := .string (name a)

def decode : Decoder α := .variant ofName?

end Named

/-- The state of a surveyable feature. -/
inductive EntityStatus where
  | ready
  | openedInOdk
  | surveySubmitted
  | validated
  | markedBad
deriving DecidableEq, Repr

instance : Named EntityStatus where
  kind := "entity status"
  all := [.ready, .openedInOdk, .surveySubmitted, .validated, .markedBad]
  name
    | .ready => "READY"
    | .openedInOdk => "OPENED_IN_ODK"
    | .surveySubmitted => "SURVEY_SUBMITTED"
    | .validated => "VALIDATED"
    | .markedBad => "MARKED_BAD"

/-- A kind of activity recorded against a task. -/
inductive TaskEventKind where
  | map
  | finish
  | validate
  | good
  | bad
  | conflate
  | split
  | merge
  | assign
  | comment
  | reset
deriving DecidableEq, Repr

instance : Named TaskEventKind where
  kind := "task event"
  all := [.map, .finish, .validate, .good, .bad, .conflate, .split, .merge, .assign, .comment,
    .reset]
  name
    | .map => "MAP"
    | .finish => "FINISH"
    | .validate => "VALIDATE"
    | .good => "GOOD"
    | .bad => "BAD"
    | .conflate => "CONFLATE"
    | .split => "SPLIT"
    | .merge => "MERGE"
    | .assign => "ASSIGN"
    | .comment => "COMMENT"
    | .reset => "RESET"

/-- The state of a task. -/
inductive TaskStatus where
  | unlockedToMap
  | lockedForMapping
  | unlockedToValidate
  | lockedForValidation
  | unlockedDone
deriving DecidableEq, Repr, Inhabited

instance : Named TaskStatus where
  kind := "task status"
  all := [.unlockedToMap, .lockedForMapping, .unlockedToValidate, .lockedForValidation,
    .unlockedDone]
  name
    | .unlockedToMap => "UNLOCKED_TO_MAP"
    | .lockedForMapping => "LOCKED_FOR_MAPPING"
    | .unlockedToValidate => "UNLOCKED_TO_VALIDATE"
    | .lockedForValidation => "LOCKED_FOR_VALIDATION"
    | .unlockedDone => "UNLOCKED_DONE"

/-- The state of a task after an event in the state `current`. Comments, assignment and changes of a
task's outline do not move it. -/
def TaskEventKind.resultingStatus (event : TaskEventKind) (current : TaskStatus) : TaskStatus :=
  match event with
  | .map => .lockedForMapping
  | .finish => .unlockedToValidate
  | .validate => .lockedForValidation
  | .good => .unlockedDone
  | .bad | .reset => .unlockedToMap
  | .conflate | .split | .merge | .assign | .comment => current

end FieldReplica
