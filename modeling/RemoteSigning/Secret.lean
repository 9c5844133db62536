import RemoteSigning.Json.Decoder
/-!
# Secrets

The secret of a challenge, which keys its tokens, and the secret of a client of the relying party.
They are different types, and what is shown of them for debugging never holds their text.
-/

namespace RemoteSigning

/-- The secret of one challenge. -/
structure ChallengeSecret where
  text : String
deriving DecidableEq

def ChallengeSecret.redacted (_ : ChallengeSecret) : String := "ChallengeSecret(<redacted>)"

def ChallengeSecret.key (s : ChallengeSecret) : List UInt8 := Text.octets s.text

/-- Whether the secret is the empty text. -/
def ChallengeSecret.isEmpty (s : ChallengeSecret) : Bool := s.text.isEmpty

/-- Reads a secret, which is written as a string. -/
def ChallengeSecret.decoder : Json.Decoder ChallengeSecret := fun place d =>
  (Json.Decoder.string place d).map ChallengeSecret.mk

/-- The secret of a client. -/
structure ClientSecret where
  text : String
deriving DecidableEq

def ClientSecret.redacted (_ : ClientSecret) : String := "ClientSecret(<redacted>)"

end RemoteSigning
