import RemoteSigning.Json.Printer
import RemoteSigning.Text.Utf8
/-!
# Errors of a relay, and the names of rooms
-/

namespace RemoteSigning.Relay

open Json

/-- Why a relay refuses a request. -/
inductive ApiError where
  | badRequest (reason : String)
  | notFound (reason : String)
deriving DecidableEq, Repr

namespace ApiError

def message : ApiError → String
  | .badRequest reason => "Bad request: " ++ reason
  | .notFound reason => "Not found: " ++ reason

def status : ApiError → Nat
  | .badRequest _ => 400
  | .notFound _ => 404

def code : ApiError → String
  | .badRequest _ => "INVALID_INPUT"
  | .notFound _ => "NOT_FOUND"

def toValue (e : ApiError) : Value :=
  .object [("code", .string e.code), ("error", .string e.message)]

end ApiError

/-- The longest name of a room, in octets. -/
def longestRoomId : Nat := 128

/-- Whether a character may occur in the name of a room. -/
def isRoomIdCharacter (c : Char) : Bool := c.isAlphanum || c == '-' || c == '_'

def checkRoomId (id : String) : Except ApiError Unit :=
  let length := (Text.octets id).length
  if length = 0 ∨ longestRoomId < length then
    .error (.badRequest ("Room id must be 1 to " ++ toString longestRoomId ++ " characters"))
  else if id.toList.all isRoomIdCharacter then .ok ()
  else .error (.badRequest "Room id may only contain letters, digits, '-' and '_'")

end RemoteSigning.Relay
