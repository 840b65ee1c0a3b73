import FieldReplica.Stream.Message

/-!
# Failures

Why a request, a write, a subscription or a collection failed, and what is said about it. A server
that refuses a request (4xx) is quoted and the request is not repeated; a failure on the way, or of
the server, may pass.
-/
namespace FieldReplica

/-- What a mutation does to its row. -/
inductive MutationKind where
  | insert
  | update
  | delete
deriving DecidableEq, Repr

def MutationKind.name : MutationKind → String
  | .insert => "insert"
  | .update => "update"
  | .delete => "delete"

/-- Why a request of the mutation endpoints failed. -/
inductive AdapterError where
  /-- The request or its answer did not arrive. -/
  | transport (reason : String)
  /-- The server refused the request. -/
  | rejected (status : Nat) (detail : String)
  /-- The server failed. -/
  | server (status : Nat) (detail : String)
  /-- The answer cannot be read. -/
  | decode (reason : String)
deriving DecidableEq, Repr

namespace AdapterError

/-- The failure that a status reports: 4xx refuses. -/
def ofStatus (status : Nat) (detail : String) : AdapterError :=
  if 400 ≤ status ∧ status < 500 then .rejected status detail else .server status detail

def message : AdapterError → String
  | .transport reason => "network error: " ++ reason
  | .rejected _ detail => detail
  | .server status detail => "server error (" ++ toString status ++ "): " ++ detail
  | .decode reason => "invalid response body: " ++ reason

/-- Whether the same request may succeed later. -/
def retryable : AdapterError → Bool
  | .transport _ | .server _ _ => true
  | .rejected _ _ | .decode _ => false

end AdapterError

/-- Why a mutation had no effect. -/
inductive MutationError where
  /-- Another mutation of the key has not been settled. -/
  | inFlight (key : String)
  | rejected (status : Nat) (detail : String)
  | network (cause : AdapterError)
  /-- The server accepted it, and does not have it. -/
  | lost (key : String) (txid : Txid)
  | unsupported (table : String) (kind : MutationKind)
  | notFound (key : String)
  | alreadyExists (key : String)
  | invalidPatch (reason : String)
  | closed
deriving DecidableEq, Repr

namespace MutationError

/-- A refusal is passed on; any other failure means that the mutation was not delivered. -/
def ofAdapter : AdapterError → MutationError
  | .rejected status detail => .rejected status detail
  | e => .network e

def message : MutationError → String
  | .inFlight key => "mutation already in flight for key " ++ key
  | .rejected _ detail => detail
  | .network cause => "mutation could not be delivered: " ++ cause.message
  | .lost key txid => "mutation lost for key " ++ key ++ " (txid " ++ txid.toText ++ ")"
  | .unsupported table kind => table ++ " does not support " ++ kind.name
  | .notFound key => "no row with key " ++ key
  | .alreadyExists key => "a row with key " ++ key ++ " already exists"
  | .invalidPatch reason => "invalid change set: " ++ reason
  | .closed => "collection is closed"

end MutationError

/-- Why a request of the shape stream failed. -/
inductive ShapeError where
  /-- It may succeed later. -/
  | transient (reason : String)
  /-- The server will not serve the shape. -/
  | permanent (status : Nat) (detail : String)
  /-- The answer makes no sense. -/
  | malformed (reason : String)
deriving DecidableEq, Repr

namespace ShapeError

/-- The failure that a status reports: a bad request, and one without leave or address, stays bad. -/
def ofStatus (status : Nat) (detail : String) : ShapeError :=
  if status = 400 ∨ status = 401 ∨ status = 403 ∨ status = 404 then .permanent status detail
  else .transient ("HTTP " ++ toString status ++ ": " ++ detail)

def message : ShapeError → String
  | .transient reason => "shape request failed: " ++ reason
  | .permanent status detail =>
    "shape subscription rejected (" ++ toString status ++ "): " ++ detail
  | .malformed reason => "malformed shape response: " ++ reason

def isPermanent : ShapeError → Bool
  | .permanent _ _ => true
  | _ => false

end ShapeError

/-- Why a collection will not become ready. -/
inductive CollectionError where
  | failed (reason : String)
  | closed
deriving DecidableEq, Repr

def CollectionError.message : CollectionError → String
  | .failed reason => "subscription failed: " ++ reason
  | .closed => "collection is closed"

end FieldReplica
