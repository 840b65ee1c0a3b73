import FieldReplica.Http.Status
import FieldReplica.Mutation.Response
import FieldReplica.Text.Base64
import FieldReplica.Text.Blank
import FieldReplica.Url.Endpoint

/-!
# Requests and answers

One exchange with a server. A request goes to an address of the server with the token that allows it; an
answer may break off before its body is complete, and no answer may come at all.
-/
namespace FieldReplica.Http

inductive Method where
  | get
  | post
  | patch
  | delete
deriving DecidableEq, Repr

def Method.name : Method → String
  | .get => "GET"
  | .post => "POST"
  | .patch => "PATCH"
  | .delete => "DELETE"

/-- A request; a body is JSON. -/
structure Request where
  method : Method
  url : Url
  token : Option String
  body : Option Json
deriving DecidableEq

namespace Request

/-- The address as it is sent: without credentials and without a fragment. -/
def target (r : Request) : String := { r.url with userinfo := [], fragment := none }.toText

/-- The credentials of the address, and then the token. -/
def authorization (r : Request) : List String :=
  let basic := r.url.credentials?.toList.map fun (name, password) =>
    "Basic " ++ String.ofList (Text.Base64.encode (Text.Utf8.encode (name ++ ":" ++ password.getD "")))
  basic ++ r.token.toList.map ("Bearer " ++ ·)

def contentType (r : Request) : Option String := r.body.map fun _ => "application/json"

end Request

/-- An answer; it has no body if the connection ends before the body does. -/
structure Answer where
  status : Nat
  headers : List (String × List UInt8)
  body : Option (List UInt8)
deriving DecidableEq, Repr

namespace Answer

/-- Whether an octet may stand in a header that is text. -/
def isHeaderText (b : UInt8) : Bool := b = 9 || (0x20 ≤ b && b < 0x7F)

/-- The text of the first header with a name, without blanks around it; none if it is no ASCII text. -/
def header? (a : Answer) (name : String) : Option String := do
  let (_, bs) ← a.headers.find? fun h => h.1.toList.map Char.toLower = name.toList
  if bs.all isHeaderText then
    some (String.ofList (Text.trim (bs.map fun b => Char.ofNat b.toNat)))
  else none

def text (a : Answer) : String := Text.Utf8.decodeLossy (a.body.getD [])

def read? {α : Type} (a : Answer) (d : Decoder α) : Option α := do
  let s ← Text.Utf8.decode? (← a.body)
  (d.ofText s).toOption

/-- The detail of a refusal: that of its body, or else the body's text. -/
def detail (a : Answer) : String :=
  match ErrorBody.decode.ofText a.text with
  | .ok b => b.message
  | .error _ => a.text

end Answer

/-- The way to servers, and how what goes wrong at this end is spoken of. -/
structure Network where
  /-- The answer to a request, or why there is none. -/
  send : Request → Except String Answer
  /-- Said of a request that cannot be put into words. -/
  unsendable : String
  /-- Said of a body that cannot be read. -/
  unreadable : String

/-- How an exchange is spoken of that failed on the way. -/
def sendFailure (r : Request) : String := "error sending request for url (" ++ r.url.toText ++ ")"

/-- A network on which no server can be reached. -/
def Network.unreachable : Network :=
  ⟨fun r => .error (sendFailure r), "builder error", "error decoding response body"⟩

/-- A server's API: the address of its root, and the token to show. -/
structure Api where
  base : Url
  token : Option String

namespace Api

/-- Whether a token can be sent in a header. -/
def isHeaderToken (s : String) : Bool :=
  s.toList.all fun c => c = '\t' || (0x20 ≤ c.toNat && c.toNat ≠ 0x7F)

def send (net : Network) (r : Request) : Except String Answer :=
  if r.token.all isHeaderToken then net.send r else .error net.unsendable

/-- The address of an endpoint, or why there is none. -/
def endpoint (api : Api) (names : List String) : Except String Url :=
  match api.base.endpoint? names with
  | some url => .ok url
  | none => .error ("`" ++ api.base.toText ++ "` cannot be a base URL")

end Api
end FieldReplica.Http
