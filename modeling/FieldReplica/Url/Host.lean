import FieldReplica.Url.Address
import FieldReplica.Url.Domain

/-!
# Hosts

The machine a URL names: a domain in its ASCII form, an address of four octets or one of eight pieces.
A scheme that is not special takes any text as a host, if no character in it separates parts of a URL.
-/
namespace FieldReplica.Url

/-- Why a text is no URL. -/
inductive ParseError where
  /-- The text has no scheme. -/
  | relative
  | emptyHost
  | domain
  | ipv4
  | ipv6
  /-- A host outside the special schemes has a character that separates parts. -/
  | hostCharacter
  | port
deriving DecidableEq, Repr

def ParseError.message : ParseError → String
  | .relative => "relative URL without a base"
  | .emptyHost => "empty host"
  | .domain => "invalid international domain name"
  | .ipv4 => "invalid IPv4 address"
  | .ipv6 => "invalid IPv6 address"
  | .hostCharacter => "invalid domain character"
  | .port => "invalid port number"

inductive Host where
  | name (text : List Char)
  | ipv4 (number : Nat)
  | ipv6 (pieces : List Nat)
deriving DecidableEq, Repr

namespace Host

/-- The text between square brackets. -/
def bracketed? : List Char → Option (List Char)
  | '[' :: cs => if cs.getLast? = some ']' then some cs.dropLast else none
  | _ => none

/-- An address of eight pieces between square brackets. -/
def parseBracketed (cs : List Char) : Except ParseError Host :=
  match (bracketed? cs).bind Ipv6.parse? with
  | some pieces => .ok (.ipv6 pieces)
  | none => .error .ipv6

/-- A host of a URL with a special scheme. -/
def parseSpecial (cs : List Char) : Except ParseError Host :=
  if cs.head? = some '[' then parseBracketed cs
  else
    match Domain.toAscii? (decodeOctets cs) with
    | none => .error .domain
    | some [] => .error .emptyHost
    | some domain =>
      if Ipv4.endsInNumber domain then
        match Ipv4.parse? domain with
        | some number => .ok (.ipv4 number)
        | none => .error .ipv4
      else .ok (.name domain)

/-- Whether a character separates parts of a URL, so that no host holds it. -/
def isForbidden (c : Char) : Bool :=
  ['\x00', '\t', '\n', '\r', ' ', '#', '/', ':', '<', '>', '?', '@', '[', '\\', ']', '^', '|'].contains c

/-- A host of a URL whose scheme is not special. -/
def parseOpaque (cs : List Char) : Except ParseError Host :=
  if cs.head? = some '[' then parseBracketed cs
  else if cs.any isForbidden then .error .hostCharacter
  else .ok (.name (encode .control cs))

def toChars : Host → List Char
  | .name text => text
  | .ipv4 number => Ipv4.toChars number
  | .ipv6 pieces => '[' :: Ipv6.toChars pieces ++ [']']

def isLoopback : Host → Bool
  | .name text => text.map Char.toLower = "localhost".toList
  | .ipv4 number => Ipv4.isLoopback number
  | .ipv6 pieces => Ipv6.isLoopback pieces

end Host
end FieldReplica.Url
