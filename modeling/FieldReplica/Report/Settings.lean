import FieldReplica.Report.Failure
import FieldReplica.Settings.File

/-!
# Settings as JSON

The settings with what follows from them: the address of the API, or why it is refused, and how collections are
opened.
-/
namespace FieldReplica.Report

def settingsError (e : SettingsError) : Json :=
  match e with
  | .file fault => .object [("error", .string "Io"), ("message", .string fault.name)]
  | .text _ fault => .object [("error", .string "Parse"), ("message", .string fault.kind.message)]
  | .unwritable => .object [("error", .string "Serialize")]
  | .url _ _ => failure "InvalidUrl" e.message []

/-- An outcome that may be an error of the settings. -/
def orSettingsError (r : Except SettingsError Json) : Json :=
  match r with
  | .ok v => v
  | .error e => settingsError e

def apiUrl (s : Settings) : Json := orSettingsError (s.api.map fun u => .string u.toText)

def collectionOptions (o : CollectionOptions) : Json :=
  let text := fun (n : Nat) => Json.string (toString n)
  .object [("confirmation_timeout_ms", text o.confirmationTimeout),
    ("base_ms", text o.reconnect.baseDelay.millis), ("max_ms", text o.reconnect.maxDelay.millis),
    ("max_attempts", .nat o.reconnect.maxAttempts), ("seed", .bool o.seedFromSnapshot),
    ("capacity", .nat o.notificationCapacity)]

def settings (s : Settings) : Json :=
  .object [("config", Settings.schema.encode s), ("api_url", apiUrl s),
    ("options", collectionOptions s.collectionOptions)]

/-- What saving gives, and whether the saved file gives the same settings. -/
def saved (s : Settings) : List (String × Json) :=
  let (outcome, file) := s.save (.error .notFound)
  let again := decide ((Settings.ofFile file).toOption = some s)
  [("saved", orSettingsError (outcome.bind fun _ => s.toFile.map .string)), ("round_trip", .bool again)]

end FieldReplica.Report
