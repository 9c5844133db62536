import RemoteSigning.Hash.Hmac
import RemoteSigning.Secret
import RemoteSigning.Token.Claims
import RemoteSigning.Token.Header
/-!
# Tokens

A token is three segments joined by points: a header, the claims, and an authentication code of the
two under the secret of the challenge, each in unpadded base64. `verify` accepts a token only if its
last segment is exactly the code that its own first two segments call for.
-/

namespace RemoteSigning.Token

open Json

/-- Why the text of a token cannot be read. -/
inductive Malformation where
  | segments
  /-- A segment is not base64. -/
  | base64 (fault : Base64.Fault)
  /-- A segment is not the JSON it has to be. -/
  | json (error : Json.Error)
deriving DecidableEq, Repr

def Malformation.message : Malformation → String
  | .segments => "InvalidToken"
  | .base64 fault => "Base64 error: " ++ fault.message
  | .json error => "JSON error: " ++ error.message

/-- Why a token is refused. -/
inductive VerifyError where
  /-- The text is no token. -/
  | malformed (why : Malformation)
  /-- The signature was not made with the secret. -/
  | badSignature
  | algorithm
deriving DecidableEq, Repr

def VerifyError.message : VerifyError → String
  | .malformed why => "malformed token: " ++ why.message
  | .badSignature => "signature does not match secret"
  | .algorithm => "unexpected signing algorithm"

def segment (text : String) : String := Base64.encodeUrl (Text.octets text)

/-- The signature of the first two segments. -/
def signature (secret : ChallengeSecret) (signed : String) : String :=
  Base64.encodeUrl (Hash.hmacSha256 secret.key (Text.octets signed))

/-- The first two segments of a token. -/
def signedPart (claims : Claims) : String :=
  segment headerText ++ "." ++ segment claims.toValue.compact

def issue (secret : ChallengeSecret) (claims : Claims) : String :=
  signedPart claims ++ "." ++ signature secret (signedPart claims)

/-- The parts of a text before and after its last point. -/
def splitLast? (text : String) : Option (String × String) :=
  let cs := text.toList.reverse
  match cs.dropWhile (· != '.') with
  | [] => none
  | _ :: before =>
    some (String.ofList before.reverse, String.ofList (cs.takeWhile (· != '.')).reverse)

/-- The segments of a token. -/
structure Segments where
  header : String
  payload : String
  signature : String
deriving DecidableEq, Repr

/-- The part of the token that is signed. -/
def Segments.signed (s : Segments) : String := s.header ++ "." ++ s.payload

/-- Splits a text at its last two points. -/
def Segments.ofText? (text : String) : Option Segments := do
  let (signed, signature) ← splitLast? text
  let (header, payload) ← splitLast? signed
  return ⟨header, payload, signature⟩

def decodeSegment (decoder : Decoder α) (text : String) : Except Malformation α := do
  let bytes ← (Base64.decodeUrl text).mapError .base64
  (decodeSource decoder (Text.positions bytes)).mapError .json

/-- Reads the claims, and the registered claims beside them. -/
def decodeClaims (payload : String) : Except Malformation Claims := do
  let claims ← decodeSegment Claims.form.decoder payload
  decodeSegment registeredForm.decoder payload
  return claims

/-- Checks a token under a secret: its header, then the signature, then the claims. -/
def verify (secret : ChallengeSecret) (token : String) : Except VerifyError Claims := do
  let some s := Segments.ofText? token | throw (.malformed .segments)
  let header ← (decodeSegment Header.form.decoder s.header).mapError .malformed
  if header.alg ≠ .hs256 then throw .algorithm
  if s.signature ≠ signature secret s.signed then throw .badSignature
  (decodeClaims s.payload).mapError .malformed

end RemoteSigning.Token
