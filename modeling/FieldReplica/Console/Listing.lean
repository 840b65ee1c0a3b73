import FieldReplica.Collection.Tables
import FieldReplica.Console.Output
import FieldReplica.Report.Activity
import FieldReplica.Settings.File
import FieldReplica.Text.Search

/-!
# Results

The results of the commands in both styles: lists of features and of events, a change of state, an event that
was recorded, the settings, and the lines of a watch.
-/
namespace FieldReplica.Console

/-- A name with blanks up to a width. -/
def padName {α : Type} [Named α] (width : Nat) (a : α) : String := Text.padRight width (Named.name a)

/-! ### Features -/

/-- A line of a list in which the keys take `width` places. -/
def entityLine (width : Nat) (e : Entity) : String :=
  Text.padRight width e.entityId ++ "  " ++ padName 16 e.status ++ "  task " ++ toString e.taskId.toInt ++
    "  osm " ++ e.osmId

def entities (l : List Entity) : Rendering where
  human :=
    if l = [] then "No entities."
    else
      let width := l.foldl (fun w e => max w e.entityId.utf8ByteSize) 0
      String.intercalate "\n" (l.map (entityLine width))
  json := Report.rows l

/-- A feature's new state, and the one before it if it was known. -/
structure StatusChange where
  entityId : String
  previous : Option EntityStatus
  status : EntityStatus
  txid : Txid

def StatusChange.rendering (c : StatusChange) : Rendering where
  human :=
    let previous := match c.previous with
      | some p => if p = c.status then "" else Named.name p ++ " -> "
      | none => ""
    c.entityId ++ ": " ++ previous ++ Named.name c.status ++ " (txid " ++ c.txid.toText ++ ")"
  json := .object [("entity_id", .string c.entityId), ("previous", Json.optional Named.toJson c.previous),
    ("status", Named.toJson c.status), ("txid", c.txid.toJson)]

/-! ### Events -/

def eventLine (e : TaskEvent) : String :=
  let comment := match e.comment with
    | some c => if c = "" then "" else "  \"" ++ c ++ "\""
    | none => ""
  String.ofList e.createdAt.minuteText ++ "  " ++ padName 9 e.event ++ " " ++ padName 22 e.status ++ " " ++
    e.username ++ comment

def history (l : List TaskEvent) : Rendering where
  human := if l = [] then "No events." else String.intercalate "\n" (l.map eventLine)
  json := Report.rows l

/-- An event that the server has taken. -/
structure RecordedEvent where
  event : TaskEvent
  txid : Txid

def RecordedEvent.rendering (r : RecordedEvent) : Rendering where
  human := eventLine r.event ++ " (txid " ++ r.txid.toText ++ ")"
  json := match Row.toJson r.event with
    | .object members => .object (members ++ [("txid", r.txid.toJson)])
    | v => v

/-! ### Settings -/

/-- The settings in force and where they come from; the token itself is never shown. -/
structure SettingsReport where
  source : Option String
  settings : Settings
  tokenSet : Bool

namespace SettingsReport

def isUrlValid (r : SettingsReport) : Bool := r.settings.url.toOption.isSome

def rendering (r : SettingsReport) : Rendering where
  human :=
    let s := r.settings.sync
    let attempts := match s.reconnectMaxAttempts with
      | some n => toString n.toNat
      | none => "unlimited"
    String.intercalate "\n" [
      "source:                " ++ r.source.getD "defaults",
      "api_url:               " ++ r.settings.apiUrl,
      "FIELDSYNC_TOKEN:       " ++ if r.tokenSet then "set" else "not set",
      "confirmation timeout:  " ++ toString s.confirmationTimeout.toNat ++ "ms",
      "reconnect backoff:     " ++ toString s.reconnectBaseDelay.toNat ++ "ms .. " ++
        toString s.reconnectMaxDelay.toNat ++ "ms, " ++ attempts ++ " attempts",
      "request timeout:       " ++ toString s.requestTimeout.toNat ++ "ms",
      "seed from snapshot:    " ++ toString s.seedFromSnapshot,
      "notification capacity: " ++ toString s.notificationCapacity.toNat]
  json := .object [("source", Json.optional .string r.source), ("api_url", .string r.settings.apiUrl),
    ("api_url_valid", .bool r.isUrlValid), ("token_set", .bool r.tokenSet),
    ("sync", Settings.syncSchema.encode r.settings.sync)]

end SettingsReport

/-! ### Watching -/

/-- Rows that can be described in a few words. -/
class Described (R : Type) where
  describe : R → String

instance : Described Entity where
  describe e := Named.name e.status ++ " task " ++ toString e.taskId.toInt

instance : Described TaskEvent where
  describe e := Named.name e.event ++ " task " ++ toString e.taskId.toInt ++ " by " ++ e.username ++ " -> " ++
    Named.name e.status

section
variable {R : Type} [Row R] [Described R]

def rowLine (kind key : String) (row : R) : Rendering where
  human := Text.padRight 8 kind ++ " " ++ key ++ "  " ++ Described.describe row
  json := Report.typed "row" [("kind", .string kind), ("key", .string key), ("row", Row.toJson row)]

/-- The line of a watch that tells of an event; none if the event ends the watch. -/
def watchLine : Event R → Option Rendering
  | .changed c => some (rowLine (Report.changeKind c.kind) c.key c.row)
  | .confirmed key txid => some
    ⟨"confirmed " ++ key ++ " (txid " ++ txid.toText ++ ")",
      Report.typed "confirmed" [("key", .string key), ("txid", txid.toJson)]⟩
  | .rolledBack key reason => some
    ⟨"reverted " ++ key ++ ": " ++ reason,
      Report.typed "rolled_back" [("key", .string key), ("reason", .string reason)]⟩
  | .reconnecting attempt delay reason =>
    let delay := min delay.millis (UInt64.size - 1)
    some
      ⟨"reconnecting (attempt " ++ toString attempt ++ ", in " ++ toString delay ++ "ms): " ++ reason,
        Report.typed "reconnecting" [("attempt", .nat attempt), ("delay_ms", .nat delay),
          ("reason", .string reason)]⟩
  | .resynced rows => some
    ⟨"resynced " ++ toString rows ++ " rows", Report.typed "resynced" [("rows", .nat rows)]⟩
  | .subscriptionFailed _ => none

end
end FieldReplica.Console
