import FieldReplica.Url.Basic

/-!
# The address of the API

Where the API is found. The token goes along with every request, so the address has to be encrypted or that of
the machine itself.
-/
namespace FieldReplica

/-- Why a text is no address of an API. -/
inductive UrlRefusal where
  | malformed (e : Url.ParseError)
  | insecure
deriving DecidableEq, Repr

def UrlRefusal.message : UrlRefusal → String
  | .malformed e => e.message
  | .insecure => "api_url must use https (http is allowed only for localhost testing)"

namespace Url

/-- Whether no one between can read what is sent to an address. -/
def isSecure (u : Url) : Bool :=
  u.scheme = "https".toList || (u.scheme = "http".toList && u.host.any Host.isLoopback)

def parseSecure (s : String) : Except UrlRefusal Url :=
  match parse s with
  | .error e => .error (.malformed e)
  | .ok u => if u.isSecure then .ok u else .error .insecure

end Url
end FieldReplica
