import RemoteSigning.Ceremony.Options
import RemoteSigning.Json.Lenient
/-!
# Token claims

What a token says: the challenge that is shown, and for how many seconds. The claims that tokens
usually have, an expiry and the like, are looked at only for their shape.
-/

namespace RemoteSigning.Token

open Json

/-- The claims of a token. -/
structure Claims where
  challengeId : String
  /-- Whole seconds since the display started, below `2 ^ 64`. -/
  elapsedSeconds : Nat
deriving DecidableEq, Repr

def Claims.form : Record Claims where
  name := "TokenClaims"
  fields :=
    [.mandatory "challenge_id" .string fun v c => { c with challengeId := v },
     .mandatory "duration" .u64 fun v c => { c with elapsedSeconds := v }]
  empty := { challengeId := "", elapsedSeconds := 0 }
  undeclared := .dropped

def Claims.toValue (c : Claims) : Value :=
  .object [("challenge_id", .string c.challengeId),
    ("duration", Ceremony.natValue c.elapsedSeconds)]

/-- The registered claims, with how leniently each is read. -/
def registered : List (String × Leniency) :=
  [("exp", .entering), ("nbf", .entering), ("sub", .shallow), ("iss", .whole), ("aud", .whole)]

/-- A registered claim: any value is as good as any other, if its reader comes to its end. Otherwise
what is left of the value stands where the member has to end. -/
def registeredField (claim : String × Leniency) : Record.Field Unit where
  name := claim.1
  aliases := []
  required := false
  omissible := claim.2 == .entering
  read place d r := if claim.2.accepts place d then .ok r else .error (.fault .noMemberEnd)

/-- The registered claims, of which none may occur twice. -/
def registeredForm : Record Unit where
  name := "ClaimsForValidation"
  fields := registered.map registeredField
  empty := ()
  undeclared := .dropped

end RemoteSigning.Token
