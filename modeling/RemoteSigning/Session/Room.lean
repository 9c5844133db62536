import RemoteSigning.Failure
import RemoteSigning.Url.Parse
/-!
# Rooms as a device finds them

The URL of the room for a challenge. Every relay serves its rooms under the same path.
-/

namespace RemoteSigning.Session

/-- The path under which a relay serves its rooms. -/
def roomPath : String := "/api/v1/remote/"

/-- The scheme of the socket that belongs to a scheme: secure where the other is secure. -/
def socketScheme (scheme : String) : String :=
  if scheme = "https" ∨ scheme = "wss" then "wss" else "ws"

/-- The URL of the room for a challenge at a relay. Only the host of the relay's URL counts. -/
def roomUrl (relay : Url) (challengeId : String) : Except TransportFailure Url :=
  match relay.setSpecialScheme? (socketScheme relay.scheme) with
  | some u => .ok (u.setPath (roomPath ++ challengeId)).withoutTail
  | none => .error (.badAnswer ("cannot derive relay URL from " ++ relay.text))

end RemoteSigning.Session
