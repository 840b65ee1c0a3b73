import FieldReplica.Settings.Basic
import FieldReplica.Text.Blank
import FieldReplica.Toml.Decoder
import FieldReplica.Toml.Quoted

/-!
# The settings file

Settings are kept in a TOML file: the address at the top and the settings of replication in a table of their
own. What a file leaves out has its usual value. Numbers in the file have 63 bits, so settings with a greater
number are not saved. The token is never part of the file.
-/
namespace FieldReplica

/-- Why a file cannot be read as text. -/
inductive FileFault where
  | notFound
  | notText
  | isDirectory
deriving DecidableEq, Repr

namespace FileFault

def name : FileFault → String
  | .notFound => "NotFound"
  | .notText => "InvalidData"
  | .isDirectory => "IsADirectory"

def message : FileFault → String
  | .notFound => "No such file or directory (os error 2)"
  | .notText => "stream did not contain valid UTF-8"
  | .isDirectory => "Is a directory (os error 21)"

end FileFault

/-- Why there are no usable settings. -/
inductive SettingsError where
  | file (fault : FileFault)
  /-- The text of the file does not give settings. -/
  | text (source : List Char) (fault : Toml.Fault)
  /-- A number does not fit into the file. -/
  | unwritable
  | url (value : String) (refusal : UrlRefusal)
deriving DecidableEq, Repr

def SettingsError.message : SettingsError → String
  | .file fault => "config I/O error: " ++ fault.message
  | .text source fault => "config parse error: " ++ fault.message source
  | .unwritable => "config serialize error: out-of-range value for u64 type"
  | .url value refusal => "invalid api_url \x60" ++ value ++ "\x60: " ++ refusal.message

/-- The greatest number of a file. -/
def SyncField.maxNumber : Nat := Int64.maxValue.toNatClampNeg

namespace SyncField

def entry (name value : String) : List Char := (name ++ " = " ++ value ++ "\n").toList

/-- The line of a setting; an open limit has none. -/
def line (s : SyncSettings) : SyncField → List Char
  | .number name _ get _ => entry name (toString (get s).toNat)
  | .limit name get _ =>
    match get s with
    | some n => entry name (toString n.toNat)
    | none => []
  | .flag name get _ => entry name (toString (get s))

def fits (s : SyncSettings) : SyncField → Bool
  | .number _ _ get _ => (get s).toNat ≤ maxNumber
  | _ => true

def field : SyncField → Toml.Decoder.Field SyncSettings
  | .number name expected _ set =>
    ⟨name, fun v => do return set (.ofNat (← Toml.Decoder.natural UInt64.size expected v))⟩
  | .limit name _ set =>
    ⟨name, fun v => do return set (some (.ofNat (← Toml.Decoder.natural UInt32.size "u32" v)))⟩
  | .flag name _ set => ⟨name, fun v => do return set (← Toml.Decoder.boolean v)⟩

end SyncField

namespace Settings

def toFile (s : Settings) : Except SettingsError String :=
  if SyncSettings.fields.all (SyncField.fits s.sync) then
    .ok (String.ofList ("api_url = ".toList ++ Toml.quote s.apiUrl ++ "\n\n[sync]\n".toList ++
      SyncSettings.fields.flatMap (SyncField.line s.sync)))
  else .error .unwritable

/-- Save the settings in a file that holds `content`: what comes of it, and what the file holds then. The text is
made before the file is opened. -/
def save (s : Settings) (content : Except FileFault (List UInt8)) :
    Except SettingsError Unit × Except FileFault (List UInt8) :=
  match s.toFile with
  | .error e => (.error e, content)
  | .ok text =>
    match content with
    | .error .isDirectory => (.error (.file .isDirectory), content)
    | _ => (.ok (), .ok (Text.Utf8.encode text))

/-- The parts of the file. -/
def fileFields : List (Toml.Decoder.Field Settings) := [
  ⟨"api_url", fun v => do
    let url ← Toml.Decoder.string v
    return fun s => { s with apiUrl := url }⟩,
  ⟨"sync", fun v => do
    let sync ← Toml.Decoder.record "struct SyncConfig" (SyncSettings.fields.map SyncField.field) true
      .default v
    return fun s => { s with sync }⟩]

/-- The settings that a document gives. -/
def ofDocument (cs : List Char) : Except Toml.Fault Settings :=
  match Toml.read cs with
  | .error t => .error (.ofTrouble t)
  | .ok members => Toml.Decoder.members fileFields false default members

def ofText (s : String) : Except SettingsError Settings :=
  (ofDocument s.toList).mapError (.text s.toList)

def ofFile (content : Except FileFault (List UInt8)) : Except SettingsError Settings :=
  match content with
  | .error fault => .error (.file fault)
  | .ok bs =>
    match Text.Utf8.decode? bs with
    | none => .error (.file .notText)
    | some s => ofText s

/-- The settings of a file, or the usual ones if it cannot be used. -/
def ofFileOrDefault (content : Except FileFault (List UInt8)) : Settings :=
  match ofFile content with
  | .ok s => s
  | .error _ => default

def api (s : Settings) : Except SettingsError Url := s.url.mapError (.url s.apiUrl)

/-- The token of the environment; a blank one does not count. -/
def token? (value : Option String) : Option String :=
  value.filter fun s => !(Text.trim s.toList).isEmpty

/-- Where the file lies below the home directory. -/
def directory : String := ".fieldsync"

def path : String := directory ++ "/config.toml"

end Settings
end FieldReplica
