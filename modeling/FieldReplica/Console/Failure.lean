import FieldReplica.Settings.File
import FieldReplica.Text.Search

/-!
# Why a command fails

A failure has a cause and the words that the steps around it put before it. From both follow the exit status of
the program and what is said to the user. The two are decided separately: the exit status looks at the cause
and else at what the whole failure says, and so does the message, which ignores the case of letters there.
-/
namespace FieldReplica.Console

/-- What brought a command down. -/
inductive Cause where
  | mutation (e : MutationError)
  | adapter (e : AdapterError)
  | shape (e : ShapeError)
  | collection (e : CollectionError)
  | settings (e : SettingsError)
  /-- Settings that are found bad only when the API is opened; they are known by their words alone. -/
  | access (e : SettingsError)
  | text (s : String)

def Cause.message : Cause → String
  | .mutation e => e.message
  | .adapter e => e.message
  | .shape e => e.message
  | .collection e => e.message
  | .settings e => e.message
  | .access e => e.message
  | .text s => s

/-- A cause, and what was being done, outermost first. -/
structure Failure where
  context : List String
  cause : Cause

namespace Failure

/-- Say what was being done when a failure came up. -/
def during (what : String) (f : Failure) : Failure := { f with context := what :: f.context }

/-- The whole of what a failure says. -/
def message (f : Failure) : String := String.intercalate ": " (f.context ++ [f.cause.message])

end Failure

/-! ### The exit status -/

inductive ExitStatus where
  | success
  | failure
  /-- The command or the settings are wrong. -/
  | usage
  /-- The server does not know or does not admit the user. -/
  | unauthorized
  /-- The server refused a change or took it back. -/
  | rejected
  | network
deriving DecidableEq, Repr

namespace ExitStatus

def code : ExitStatus → Nat
  | .success => 0
  | .failure => 1
  | .usage => 2
  | .unauthorized => 11
  | .rejected => 12
  | .network => 13

/-- Whether a status of an answer tells that the user is not admitted. -/
def isUnauthorized (status : Nat) : Bool := status = 401 || status = 403

def ofRejection (status : Nat) : ExitStatus :=
  if isUnauthorized status then .unauthorized else .rejected

def ofAdapter : AdapterError → ExitStatus
  | .rejected status _ => ofRejection status
  | .transport _ | .server _ _ => .network
  | .decode _ => .failure

def ofMutation : MutationError → ExitStatus
  | .rejected status _ => ofRejection status
  | .lost _ _ => .rejected
  | .network cause => ofAdapter cause
  | .notFound _ | .alreadyExists _ | .invalidPatch _ | .unsupported _ _ => .usage
  | .inFlight _ | .closed => .failure

/-- The status that words alone tell. -/
def ofText (s : String) : ExitStatus :=
  let has := fun (part : String) => Text.holds s.toList part.toList
  if has "(401)" || has "(403)" then .unauthorized
  else if has "network error" || has "shape request failed" then .network
  else .failure

def ofFailure (f : Failure) : ExitStatus :=
  match f.cause with
  | .mutation e => ofMutation e
  | .adapter e => ofAdapter e
  | .collection (.failed reason) => ofText reason
  | .settings (.url _ _) => .usage
  | _ => ofText f.message

end ExitStatus

/-! ### What the user is told -/

/-- A failure as the user is told of it. -/
inductive Diagnosis where
  | mutationRejected (detail : String)
  | mutationInFlight (key : String)
  | mutationLost (key : String)
  | mutationFailed (message : String)
  | notFound (key : String)
  | network (message : String)
  | badSettings (message : String)
  | unauthorized
  | other (message : String)
deriving DecidableEq, Repr

namespace Diagnosis

def code : Diagnosis → String
  | .mutationRejected _ => "MUTATION_REJECTED"
  | .mutationInFlight _ => "MUTATION_IN_FLIGHT"
  | .mutationLost _ => "MUTATION_LOST"
  | .mutationFailed _ => "MUTATION_FAILED"
  | .notFound _ => "NOT_FOUND"
  | .network _ => "NETWORK_ERROR"
  | .badSettings _ => "CONFIG_INVALID"
  | .unauthorized => "AUTH_FAILURE"
  | .other _ => "SYNC_ERROR"

/-- Where the user can look for a bad address. -/
def settingsHint : String := ". Check api_url with: fieldsync config show"

def message : Diagnosis → String
  | .mutationRejected detail => "The server rejected the change: " ++ detail
  | .mutationInFlight key =>
    "A change to " ++ key ++ " is still waiting for the server. Try again shortly."
  | .mutationLost key =>
    "The change to " ++ key ++ " was not applied by the server and has been reverted."
  | .mutationFailed message => message
  | .notFound key => "No row " ++ key ++ " in this project. Run: fieldsync watch"
  | .network message => "Could not reach the API (" ++ message ++ ")" ++ settingsHint
  | .badSettings message => message ++ settingsHint
  | .unauthorized => "Authentication failed. Set a valid token in FIELDSYNC_TOKEN."
  | .other message => message

/-- The diagnosis that words alone give, in whatever case. -/
def ofText (s : String) : Diagnosis :=
  let has := fun (part : String) => Text.holds (s.toList.map Char.toLower) part.toList
  if has "(401)" || has "(403)" || has "unauthorized" then .unauthorized
  else if has "network error" || has "timed out" then .network s
  else .other s

def ofFailure (f : Failure) : Diagnosis :=
  match f.cause with
  | .mutation (.rejected _ detail) => .mutationRejected detail
  | .mutation (.inFlight key) => .mutationInFlight key
  | .mutation (.lost key _) => .mutationLost key
  | .mutation (.notFound key) => .notFound key
  | .mutation (.network _) => .network f.message
  | .mutation _ => .mutationFailed f.message
  | .settings (.url _ _) => .badSettings f.message
  | _ => ofText f.message

end Diagnosis
end FieldReplica.Console
