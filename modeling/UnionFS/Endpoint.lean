import UnionFS.Os.Error
import UnionFS.Text.Numeral
import UnionFS.Text.Pieces

/-!
# Endpoints

The place where a server listens: a host and a port with a colon between them.  A machine without a
network listens at few of them.
-/

namespace UnionFS

structure Endpoint where
  host : String
  port : UInt16
  deriving DecidableEq, Repr

namespace Endpoint

def noPort : IoError := .found .invalidInput "invalid socket address"
def badPort : IoError := .found .invalidInput "invalid port value"

/-- The endpoint that a text names.  The port is what follows the last colon. -/
def ofText (text : String) : Except IoError Endpoint :=
  let reversed := text.toList.reverse
  let port := (reversed.takeWhile (· != ':')).reverse
  match reversed.dropWhile (· != ':') with
  | [] => .error noPort
  | _ :: host =>
    match Text.word16? port with
    | none => .error badPort
    | some port =>
      if host.contains '\x00' then .error .zeroInName
      else .ok ⟨String.ofList host.reverse, port⟩

/-! ## A machine without a network -/

/-- The host is four numbers with points between them. -/
def isNumbered (e : Endpoint) : Bool :=
  let parts := Text.pieces (· == '.') e.host.toList
  parts.length == 4 && parts.all fun part => (Text.digits? 10 part).any (· < 256)

/-- The host is the machine itself, on which it can be heard. -/
def isOwn (e : Endpoint) : Bool :=
  e.host == "localhost" || e.host == "0.0.0.0"
    || (e.isNumbered && "127.".toList.isPrefixOf e.host.toList)

/-- The host could be the name of a machine: letters, digits, hyphens and underscores, with points
between its parts and perhaps one at its end. -/
def isNamed (e : Endpoint) : Bool :=
  let isPart (part : List Char) : Bool :=
    !part.isEmpty && part.length < 64
      && part.all fun c => c.isAlphanum || c == '-' || c == '_'
  let parts := Text.pieces (· == '.') e.host.toList
  e.host.length < 254 && !"-".toList.isPrefixOf e.host.toList
    && (if parts.length > 1 && parts.getLast? == some [] then parts.dropLast else parts).all isPart

def addressNotOwn : IoError := .system 99
def portReserved : IoError := .system 13

/-- Nobody could say what address a host has. -/
def nameUnknown (detail : String) : IoError :=
  .found .other s!"failed to lookup address information: {detail}"

/-- Why a machine without a network cannot listen: it has no address but its own, finds no names,
and keeps the low ports to the superuser. -/
def refusal? (e : Endpoint) (privileged : Bool) : Option IoError :=
  if e.isOwn then
    if !privileged && 0 < e.port && e.port < 1024 then some portReserved else none
  else if e.isNumbered || e.host.toList.contains ':' then some addressNotOwn
  else if e.isNamed then some (nameUnknown "Temporary failure in name resolution")
  else some (nameUnknown "Name or service not known")

/-- What is said where a server cannot listen. -/
def cannotListen (bind : String) (cause : IoError) : String :=
  s!"Cannot listen on {bind}: {cause.message}"

end Endpoint
end UnionFS
