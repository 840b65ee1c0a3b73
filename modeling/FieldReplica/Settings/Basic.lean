import FieldReplica.Collection.Basic
import FieldReplica.Settings.ApiUrl

/-!
# Settings

What a person can set: the address of the API, and how patient and how eager replication is. Every setting of
replication is a number, a flag, or a number that may be left open; `SyncSettings.fields` has them all, and every
form in which settings are written or read follows it.
-/
namespace FieldReplica

/-- The settings of replication; times are in milliseconds. -/
structure SyncSettings where
  confirmationTimeout : UInt64
  reconnectBaseDelay : UInt64
  reconnectMaxDelay : UInt64
  /-- How many failures in a row end a subscription; none if none do. -/
  reconnectMaxAttempts : Option UInt32
  seedFromSnapshot : Bool
  requestTimeout : UInt64
  notificationCapacity : UInt64
deriving DecidableEq, Repr

/-- A setting by its name, with the way to it. -/
inductive SyncField where
  | number (name : String) (expected : String) (get : SyncSettings → UInt64)
      (set : UInt64 → SyncSettings → SyncSettings)
  | limit (name : String) (get : SyncSettings → Option UInt32)
      (set : Option UInt32 → SyncSettings → SyncSettings)
  | flag (name : String) (get : SyncSettings → Bool) (set : Bool → SyncSettings → SyncSettings)

namespace SyncSettings

def default : SyncSettings := ⟨30000, 250, 30000, none, true, 60000, 1024⟩

/-- The settings in the order in which they are written. -/
def fields : List SyncField := [
  .number "confirmation_timeout_ms" "u64" (·.confirmationTimeout) fun v s =>
    { s with confirmationTimeout := v },
  .number "reconnect_base_delay_ms" "u64" (·.reconnectBaseDelay) fun v s =>
    { s with reconnectBaseDelay := v },
  .number "reconnect_max_delay_ms" "u64" (·.reconnectMaxDelay) fun v s =>
    { s with reconnectMaxDelay := v },
  .limit "reconnect_max_attempts" (·.reconnectMaxAttempts) fun v s =>
    { s with reconnectMaxAttempts := v },
  .flag "seed_from_snapshot" (·.seedFromSnapshot) fun v s => { s with seedFromSnapshot := v },
  .number "request_timeout_ms" "u64" (·.requestTimeout) fun v s => { s with requestTimeout := v },
  .number "notification_capacity" "usize" (·.notificationCapacity) fun v s =>
    { s with notificationCapacity := v }]

end SyncSettings

namespace SyncField

/-- A setting as the column of a JSON object. -/
def column : SyncField → Column SyncSettings
  | .number name _ get set =>
    .ofField name .defaulted get set (fun n => .nat n.toNat) .uint64
  | .limit name get set =>
    .ofField name .defaulted get set (Json.optional fun n => .nat n.toNat) (.optional .uint32)
  | .flag name get set => .ofField name .defaulted get set .bool .bool

end SyncField

structure Settings where
  apiUrl : String
  sync : SyncSettings
deriving DecidableEq, Repr

namespace Settings

def default : Settings := ⟨"http://localhost:8000", .default⟩

/-- The settings of replication as a JSON object, in which no other names may stand. -/
def syncSchema : Schema SyncSettings := ⟨SyncSettings.fields.map SyncField.column, .default, true⟩

def schema : Schema Settings where
  columns := [
    .ofField "api_url" .defaulted (·.apiUrl) (fun v s => { s with apiUrl := v }) .string .string,
    .ofField "sync" .defaulted (·.sync) (fun v s => { s with sync := v })
      syncSchema.encode syncSchema.decode]
  blank := default
  closed := false

def url (s : Settings) : Except UrlRefusal Url := Url.parseSecure s.apiUrl

/-- How collections are to be opened. -/
def collectionOptions (s : Settings) : CollectionOptions where
  confirmationTimeout := s.sync.confirmationTimeout.toNat
  reconnect :=
    ⟨.ofMillis s.sync.reconnectBaseDelay.toNat, .ofMillis s.sync.reconnectMaxDelay.toNat,
      (s.sync.reconnectMaxAttempts.getD 4294967295).toNat⟩
  seedFromSnapshot := s.sync.seedFromSnapshot
  notificationCapacity := s.sync.notificationCapacity.toNat

end Settings
end FieldReplica
