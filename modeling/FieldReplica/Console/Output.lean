import FieldReplica.Json.Printer

/-!
# What a command prints

Results go to the standard output, as aligned text for people or as one JSON value a line for programs; errors
and warnings go to the standard error in the same style.
-/
namespace FieldReplica.Console

inductive Style where
  | human
  | json
deriving DecidableEq, Repr

/-- People read a terminal; anything else reads JSON, and so does who asks for it. -/
def Style.detect (jsonWanted terminal : Bool) : Style :=
  if jsonWanted || !terminal then .json else .human

/-- A result in both styles. -/
structure Rendering where
  human : String
  json : Json

def Rendering.line (r : Rendering) : Style → String
  | .human => r.human ++ "\n"
  | .json => r.json.render ++ "\n"

inductive Severity where
  | error
  | warning
deriving DecidableEq, Repr

namespace Severity

def label : Severity → String
  | .error => "error"
  | .warning => "warning"

def color : Severity → String
  | .error => "\x1b[31m"
  | .warning => "\x1b[33m"

/-- A message for people, in colour on a terminal. -/
def humanLine (s : Severity) (message : String) (terminal : Bool) : String :=
  if terminal then s.color ++ s.label ++ ":\x1b[0m " ++ message else s.label ++ ": " ++ message

/-- The line that is printed of a message with a code. -/
def line (s : Severity) (style : Style) (terminal : Bool) (code message : String) : String :=
  match style with
  | .human => s.humanLine message terminal ++ "\n"
  | .json =>
    let body := Json.object [("code", .string code), ("message", .string message)]
    (Json.object [(s.label, body)]).render ++ "\n"

end Severity
end FieldReplica.Console
