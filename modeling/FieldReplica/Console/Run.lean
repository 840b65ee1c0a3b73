import FieldReplica.Console.Arguments
import FieldReplica.Console.Failure
import FieldReplica.Console.Listing
import FieldReplica.Http.Live

/-!
# Running commands

What a command does, given everything around it: the files, the environment and the network. A command that
needs a project opens its two collections and waits until both are complete; a failure ends it with a line on
the standard error and an exit status.
-/
namespace FieldReplica.Console

/-- What a command finds around it. -/
structure Environment where
  home : String
  read : String → Except FileFault (List UInt8)
  /-- The variable that holds the token. -/
  token : Option String
  stdoutTerminal : Bool
  stderrTerminal : Bool
  network : Http.Network
  /-- A key that nothing has yet. -/
  freshKey : String
  now : Time.Instant
  /-- How many steps of a collection are waited for. -/
  patience : Nat

/-- How a program ends. -/
structure Termination where
  status : ExitStatus
  stdout : String
  stderr : String
deriving DecidableEq, Repr

/-- A part of a command; it has no result as long as its collections wait. -/
abbrev Task := ExceptT Failure Option

namespace Environment

def settingsPath (env : Environment) : String := env.home ++ "/" ++ Settings.path

def token? (env : Environment) : Option String := Settings.token? env.token

/-- The settings in their usual place, or the usual ones. -/
def settings (env : Environment) : Settings := Settings.ofFileOrDefault (env.read env.settingsPath)

def style (env : Environment) (json : Bool) : Style := Style.detect json env.stdoutTerminal

/-- A line on the standard error. -/
def complain (env : Environment) (style : Style) (severity : Severity) (code message : String) : String :=
  severity.line style env.stderrTerminal code message

/-- How a command ends that fails after some output. -/
def fail (env : Environment) (style : Style) (stdout stderr : String) (f : Failure) : Termination :=
  let d := Diagnosis.ofFailure f
  ⟨.ofFailure f, stdout, stderr ++ env.complain style .error d.code d.message⟩

def finish (env : Environment) (style : Style) : Except Failure Rendering → Termination
  | .ok r => ⟨.success, r.line style, ""⟩
  | .error f => env.fail style "" "" f

/-! ### Settings -/

/-- The settings in a file, or those in force. -/
def report (env : Environment) : Option String → Except Failure SettingsReport
  | none =>
    let found := match env.read env.settingsPath with
      | .error .notFound => false
      | _ => true
    .ok ⟨if found then some env.settingsPath else none, env.settings, env.token?.isSome⟩
  | some file =>
    match Settings.ofFile (env.read file) with
    | .ok s => .ok ⟨some file, s, env.token?.isSome⟩
    | .error e => .error (Failure.during ("failed to read " ++ file) ⟨[], .settings e⟩)

def showSettings (env : Environment) (file : Option String) (style : Style) : Termination :=
  match env.report file with
  | .error f => env.fail style "" "" f
  | .ok r =>
    let warning :=
      if r.isUrlValid then ""
      else env.complain style .warning "CONFIG_INVALID" ("api_url \x60" ++ r.settings.apiUrl ++
        "\x60 must use https unless it is a loopback host")
    ⟨.success, r.rendering.line style, warning⟩

def showPath (env : Environment) (style : Style) : Termination :=
  let path := env.settingsPath
  ⟨.success, (Rendering.mk path (.object [("path", .string path)])).line style, ""⟩

/-! ### Projects -/

/-- A project whose collections are complete. -/
structure Project where
  connection : Http.Connection
  entities : Http.Live Entity
  taskEvents : Http.Live TaskEvent

def await {R α : Type} [Row R] (env : Environment) (conn : Http.Connection) (l : Http.Live R)
    (result : Http.Live R → Option α) : Task (Http.Live R × α) :=
  ExceptT.lift (l.await conn result env.patience)

/-- Wait until a collection is complete. -/
def complete {R : Type} [Row R] (env : Environment) (conn : Http.Connection) (l : Http.Live R) :
    Task (Http.Live R) := do
  match ← env.await conn l fun l => l.collection.readiness with
  | (l, .ok _) => return l
  | (_, .error e) => throw ⟨[], .collection e⟩

def connection (env : Environment) : Except Failure Http.Connection :=
  match env.settings.api with
  | .ok url => .ok ⟨⟨url, env.token?⟩, env.network⟩
  | .error e => .error (Failure.during "failed to configure API access" ⟨[], .access e⟩)

/-- Open the collections of a project and wait until both are complete. -/
def openProject (env : Environment) (project : Int64) : Task Project := do
  let conn ← ExceptT.mk (some env.connection)
  let options := env.settings.collectionOptions
  let waiting := fun (t : Task Project) => t.adapt
    (Failure.during ("project " ++ toString project.toInt ++ " did not finish syncing"))
  waiting do
    let entities ← env.complete conn (.start project options)
    let taskEvents ← env.complete conn (.start project options)
    return ⟨conn, entities, taskEvents⟩

def listEntities (env : Environment) (project : Int64) (task : Option Int64) : Task Rendering := do
  let p ← env.openProject project
  let rows := p.entities.collection.store.list
  return entities (match task with
    | some t => Entity.forTask rows t
    | none => rows)

def showHistory (env : Environment) (project task : Int64) : Task Rendering := do
  let p ← env.openProject project
  return history (TaskEvent.history p.taskEvents.collection.store.list task)

def mutate {R : Type} [Row R] (env : Environment) (conn : Http.Connection) (l : Http.Live R)
    (m : Mutation R) (what : String) : Task (Http.Live R × Outcome) := do
  match ← ExceptT.lift (l.mutate conn env.freshKey m env.patience) with
  | (l, .ok o) => return (l, o)
  | (_, .error e) => throw (Failure.during what ⟨[], .mutation e⟩)

def setStatus (env : Environment) (project : Int64) (entity : String) (status : EntityStatus) :
    Task Rendering := do
  let p ← env.openProject project
  let previous := (p.entities.collection.store.get? entity).map (·.status)
  let (_, outcome) ← env.mutate p.connection p.entities (Entity.setStatus entity status)
    ("failed to set status of " ++ entity)
  match outcome with
  | .confirmed key txid => return StatusChange.rendering ⟨key, previous, status, txid⟩
  | .cancelled key => throw ⟨[], .text ("update of " ++ key ++ " was cancelled before submission")⟩

/-- The event that a user records; its state is the given one, or what the event makes of the task's. -/
def newEvent (env : Environment) (rows : List TaskEvent) (project task : Int64) (event : TaskEventKind)
    (username : String) (comment : Option String) (status : Option TaskStatus) : TaskEvent :=
  let current := TaskEvent.currentStatus (TaskEvent.history rows task)
  { eventId := "", event, projectId := project, taskId := task, comment, createdAt := env.now, username
    profileImg := none, status := status.getD (event.resultingStatus current) }

def addEvent (env : Environment) (project task : Int64) (event : TaskEventKind) (username : String)
    (comment : Option String) (status : Option TaskStatus) : Task Rendering := do
  let p ← env.openProject project
  let e := env.newEvent p.taskEvents.collection.store.list project task event username comment status
  let (l, outcome) ← env.mutate p.connection p.taskEvents (.insert e)
    ("failed to record " ++ Named.name event ++ " on task " ++ toString task.toInt)
  match outcome with
  | .confirmed key txid =>
    let stored := (l.collection.store.get? key).getD (Row.withKey e key)
    return RecordedEvent.rendering ⟨stored, txid⟩
  | .cancelled key => throw ⟨[], .text ("event " ++ key ++ " was cancelled before submission")⟩

/-! ### Watching -/

section
variable {R : Type} [Row R] [Described R]

/-- What is printed of one event on the standard output and on the standard error, and the message of an event
that ends the watch. -/
def watchEvent (env : Environment) (style : Style) : Channel.Received (Event R) →
    String × String × Option String
  | .lagged n => ("", env.complain style .warning "LAGGED"
      ("output fell behind; " ++ toString n ++ " events were skipped"), none)
  | .event (.subscriptionFailed message) => ("", "", some message)
  | .event e => (((watchLine e).map (·.line style)).getD "", "", none)

/-- What is printed of events up to the end of the watch. -/
def watchEvents (env : Environment) (style : Style) : List (Channel.Received (Event R)) →
    String × String × Option String
  | [] => ("", "", none)
  | e :: es =>
    match env.watchEvent style e with
    | (out, err, some message) => (out, err, some message)
    | (out, err, none) =>
      let (out', err', ending) := env.watchEvents style es
      (out ++ out', err ++ err', ending)

/-- Print the events of a collection as they come, until its subscription fails. -/
def follow (env : Environment) (style : Style) (conn : Http.Connection) (stdout stderr : String) :
    Nat → Listener → Http.Live R → Option Termination
  | 0, _, _ => none
  | n + 1, listener, l =>
    let channel := l.collection.store.channel
    let (out, err, ending) := env.watchEvents style (channel.receive listener)
    match ending with
    | some message =>
      some (env.fail style (stdout ++ out) (stderr ++ err)
        ⟨[], .text (Row.table R ++ " subscription stopped: " ++ message)⟩)
    | none => (l.step? conn).bind (env.follow style conn (stdout ++ out) (stderr ++ err) n channel.listen)

/-- Print the rows of a collection and then its events. -/
def watchCollection (env : Environment) (style : Style) (conn : Http.Connection) (l : Http.Live R) :
    Option Termination :=
  let rows := l.collection.store.list.map fun r => (rowLine "snapshot" (Row.key r) r).line style
  env.follow style conn (String.join rows) "" env.patience l.collection.store.channel.listen l

end

def watch (env : Environment) (style : Style) (project : Int64) (table : WatchTable) : Option Termination := do
  match ← (env.openProject project).run with
  | .error f => return env.fail style "" "" f
  | .ok p =>
    match table with
    | .entities => env.watchCollection style p.connection p.entities
    | .taskEvents => env.watchCollection style p.connection p.taskEvents

/-- Carry out a command; none if it still waits when the patience is used up. -/
def run (env : Environment) : Invocation → Option Termination
  | .watch project table json => env.watch (env.style json) project table
  | .entityList project task json => done json (env.listEntities project task)
  | .entitySetStatus project entity status json => done json (env.setStatus project entity status)
  | .eventAdd project task event username comment status json =>
    done json (env.addEvent project task event username comment status)
  | .eventHistory project task json => done json (env.showHistory project task)
  | .configShow file json => some (env.showSettings file (env.style json))
  | .configPath json => some (env.showPath (env.style json))
where
  done (json : Bool) (t : Task Rendering) : Option Termination := t.run.map (env.finish (env.style json))

/-- Carry out what the arguments ask for. -/
def invoke (env : Environment) (args : List String) : Option Termination :=
  match Arguments.parse args with
  | .ok i => env.run i
  | .error e => some ⟨.usage, "", "error: " ++ e.message ++ "\n"⟩

end Environment
end FieldReplica.Console
