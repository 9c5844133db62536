import RemoteSigning.Ceremony.Credential
/-!
# Envelopes

The four shapes that travel between a relying party, a relay and a browser, natively and as
messages, with the one pair of functions between them.
-/

namespace RemoteSigning.Ceremony

/-- One of the four shapes, natively. -/
inductive Envelope where
  | creationOptions (o : CreationOptions Bytes)
  | requestOptions (o : RequestOptions Bytes)
  | creationResult (r : Registration)
  | requestResult (a : Assertion)
deriving DecidableEq

/-- One of the four shapes as text. -/
inductive Message where
  | creationOptions (o : CreationOptions String)
  | requestOptions (o : RequestOptions String)
  | creationResult (c : CredentialMessage)
  | requestResult (c : CredentialMessage)
deriving DecidableEq

def Envelope.encode : Envelope → Message
  | .creationOptions o => .creationOptions o.encode
  | .requestOptions o => .requestOptions o.encode
  | .creationResult r => .creationResult (r.encodeWith AttestationResponse.encode)
  | .requestResult a => .requestResult (a.encodeWith AssertionResponse.encode)

/-- Reads the envelope that a message stands for. -/
def Message.decode : Message → Except DecodeError Envelope
  | .creationOptions o => o.decode.map .creationOptions
  | .requestOptions o => o.decode.map .requestOptions
  | .creationResult c => c.decodeRegistration.map .creationResult
  | .requestResult c => c.decodeAssertion.map .requestResult

/-- The shape of an envelope. -/
inductive Shape where
  | creationOptions
  | requestOptions
  | creationResult
  | requestResult
deriving DecidableEq, Repr

def Message.decoder : Shape → Json.Decoder Message
  | .creationOptions => fun p d => (CreationOptions.form.decoder p d).map .creationOptions
  | .requestOptions => fun p d => (RequestOptions.form.decoder p d).map .requestOptions
  | .creationResult => fun p d => (CredentialMessage.form.decoder p d).map .creationResult
  | .requestResult => fun p d => (CredentialMessage.form.decoder p d).map .requestResult

def Message.toValue : Message → Json.Value
  | .creationOptions o => o.toValue
  | .requestOptions o => o.toValue
  | .creationResult c => c.toValue
  | .requestResult c => c.toValue

end RemoteSigning.Ceremony
