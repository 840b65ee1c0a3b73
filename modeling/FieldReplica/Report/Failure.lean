import FieldReplica.Error

/-!
# Failures as JSON

A failure is reported as an object with the name of its kind, its message, and what else is known in
structured form: the status of a server's answer and the cause of a network failure.
-/
namespace FieldReplica.Report

/-- The report of a failure. -/
def failure (kind message : String) (more : List (String × Json)) : Json :=
  .object ([("error", .string kind)] ++ more ++ [("message", .string message)])

def status (n : Nat) : List (String × Json) := [("status", .nat n)]

def adapterError (e : AdapterError) : Json :=
  match e with
  | .transport _ => failure "Transport" e.message []
  | .decode _ => failure "Decode" e.message []
  | .rejected s _ => failure "Rejected" e.message (status s)
  | .server s _ => failure "Server" e.message (status s)

def mutationError (e : MutationError) : Json :=
  match e with
  | .inFlight _ => failure "InFlight" e.message []
  | .rejected s _ => failure "Rejected" e.message (status s)
  | .network cause => failure "Network" e.message [("cause", adapterError cause)]
  | .lost _ _ => failure "Lost" e.message []
  | .unsupported _ _ => failure "Unsupported" e.message []
  | .notFound _ => failure "NotFound" e.message []
  | .alreadyExists _ => failure "AlreadyExists" e.message []
  | .invalidPatch _ => failure "InvalidPatch" e.message []
  | .closed => failure "Closed" e.message []

def shapeError (e : ShapeError) : Json :=
  match e with
  | .transient _ => failure "Transient" e.message []
  | .malformed _ => failure "Protocol" e.message []
  | .permanent s _ => failure "Permanent" e.message (status s)

def collectionError (e : CollectionError) : Json :=
  match e with
  | .failed _ => failure "Failed" e.message []
  | .closed => failure "Closed" e.message []

/-- A text that is no JSON is told apart from one that says the wrong thing. -/
def decodeError (e : DecodeError) : Json :=
  match e with
  | .malformed => .object [("error", .string "Syntax")]
  | e => failure "Decode" e.message []

end FieldReplica.Report
