import RemoteSigning.Session.Basic
import RemoteSigning.Token.Basic
/-!
# Failures

What can go wrong in talking to a relying party or a relay, and in using this library as a whole.
-/

namespace RemoteSigning

open Session

/-- A failure of the network. -/
inductive TransportFailure where
  /-- A request could not be sent or its answer not be received; `causes` go from the outermost to
  the innermost. -/
  | http (reason : String) (causes : List String)
  | socket (reason : String)
  | unavailable (reason : String)
  /-- The answer is not what it has to be. -/
  | badAnswer (reason : String)
  | closed
deriving DecidableEq, Repr

def TransportFailure.message : TransportFailure → String
  | .http reason _ => "HTTP request error: " ++ reason
  | .socket reason => "Socket error: " ++ reason
  | .unavailable reason => "Relying party unavailable: " ++ reason
  | .badAnswer reason => "Unexpected response: " ++ reason
  | .closed => "Connection closed"

/-- What is behind a failure, from the outermost cause to the innermost. -/
def TransportFailure.causes : TransportFailure → List String
  | .http reason causes => reason :: causes
  | _ => []

/-- Any failure. -/
inductive Failure where
  | decode (e : Ceremony.DecodeError)
  | verify (e : Token.VerifyError)
  | signing (reason : String)
  | transport (e : TransportFailure)
  | ceremony (e : CeremonyError)
  | refused (status : Nat) (code reason : String)
  | badRequest (reason : String)
  | badConfig (reason : String)
deriving DecidableEq, Repr

def Failure.message : Failure → String
  | .decode e => "Decode error: " ++ e.message
  | .verify e => "Token verification failed: " ++ e.message
  | .signing reason => "Token signing failed: " ++ reason
  | .transport e => "Transport error: " ++ e.message
  | .ceremony e => "Ceremony failed: " ++ e.text
  | .refused status code reason =>
    "Relying party returned " ++ toString status ++ " (" ++ code ++ "): " ++ reason
  | .badRequest reason => "Invalid request: " ++ reason
  | .badConfig reason => "Configuration error: " ++ reason

/-- What is behind a failure, from the outermost cause to the innermost. -/
def Failure.causes : Failure → List String
  | .decode e => [e.message]
  | .verify e => [e.message]
  | .transport e => e.message :: e.causes
  | .ceremony e => [e.text]
  | _ => []

end RemoteSigning
