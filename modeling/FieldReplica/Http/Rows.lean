import FieldReplica.Http.Exchange
import FieldReplica.Mutation.Basic

/-!
# The endpoints of a table

Where the rows of a project's table are written and read. A mutation goes to the table, with the key of its
row in the query unless it brings the whole row; a row is read from an address of its own, and all rows of a
project from another one. The key in both addresses is the key that the mutation names.
-/
namespace FieldReplica.Http.Api

variable (R : Type) [Row R]

def tableUrl (api : Api) (names : List String) : Except AdapterError Url :=
  match api.endpoint names with
  | .ok url => .ok url
  | .error e => .error (.transport ("invalid endpoint: " ++ e))

def projectPair (project : Int64) : String × String := ("project_id", toString project.toInt)

variable {R}

def submitRequest (api : Api) (project : Int64) (m : Mutation R) : Except AdapterError Request := do
  let url ← api.tableUrl [Row.table R]
  let keyed := fun key => url.withPairs [projectPair project, (Row.keyField R, key)]
  match m with
  | .insert row => return ⟨.post, url.withPairs [projectPair project], api.token, some (Row.toJson row)⟩
  | .update key changes => return ⟨.patch, keyed key, api.token, some (.object changes.entries)⟩
  | .delete key => return ⟨.delete, keyed key, api.token, none⟩

variable (R)

def rowRequest (api : Api) (project : Int64) (key : String) : Except AdapterError Request := do
  let url ← api.tableUrl [Row.table R, key]
  return ⟨.get, url.withPairs [projectPair project], api.token, none⟩

def rowsRequest (api : Api) (project : Int64) : Except AdapterError Request := do
  let url ← api.tableUrl ["projects", toString project.toInt, Row.table R]
  return ⟨.get, url, api.token, none⟩

/-- The failure that an answer without success reports; a blank body is spoken of by its status. -/
def refusal (a : Answer) : AdapterError :=
  let detail := a.detail
  .ofStatus a.status <|
    if Text.trim detail.toList = [] ∧ (ErrorBody.decode.ofText a.text).toOption.isNone then
      (reason? a.status).getD "request failed"
    else detail

/-- What the body of a successful answer says. -/
def readBody {α : Type} (net : Network) (a : Answer) (d : Decoder α) : Except AdapterError α :=
  if !isSuccess a.status then .error (refusal a)
  else
    match a.read? d with
    | some v => .ok v
    | none => .error (.decode net.unreadable)

def exchange (net : Network) (request : Except AdapterError Request) : Except AdapterError Answer := do
  match send net (← request) with
  | .ok a => return a
  | .error reason => throw (.transport reason)

variable {R}

/-- Send a mutation; the result is its transaction. -/
def submit (api : Api) (net : Network) (project : Int64) (m : Mutation R) :
    Except AdapterError Txid := do
  let a ← exchange net (api.submitRequest project m)
  return (← readBody net a MutationResponse.untyped.decode).txid

variable (R)

/-- Read one row; there is none if the server does not find it. -/
def fetchRow (api : Api) (net : Network) (project : Int64) (key : String) :
    Except AdapterError (Option R) := do
  let a ← exchange net (api.rowRequest R project key)
  if a.status = 404 then return none
  return some (← readBody net a Row.decode)

/-- The records that are rows; others are left out. -/
def rowsOf (records : List Json) : List R :=
  records.filterMap fun v => ((Row.decode : Decoder R).ofJson v).toOption

def fetchRows (api : Api) (net : Network) (project : Int64) : Except AdapterError (List R) := do
  let a ← exchange net (api.rowsRequest R project)
  return rowsOf R (← readBody net a (.list .json))

end FieldReplica.Http.Api
