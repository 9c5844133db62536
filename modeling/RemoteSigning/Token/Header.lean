import RemoteSigning.Ceremony.Options
/-!
# Token headers

The first segment of a token names the algorithm of its signature. The other members of a header are
read, so that one of the wrong type is refused, but none of them matters.
-/

namespace RemoteSigning.Token

open Json

/-- The algorithms that a header may name. -/
inductive Algorithm where
  | hs256 | hs384 | hs512
  | es256 | es384
  | rs256 | rs384 | rs512
  | ps256 | ps384 | ps512
  | edDSA
deriving DecidableEq, Repr

def Algorithm.name : Algorithm → String
  | .hs256 => "HS256" | .hs384 => "HS384" | .hs512 => "HS512"
  | .es256 => "ES256" | .es384 => "ES384"
  | .rs256 => "RS256" | .rs384 => "RS384" | .rs512 => "RS512"
  | .ps256 => "PS256" | .ps384 => "PS384" | .ps512 => "PS512"
  | .edDSA => "EdDSA"

/-- The choices in the order in which messages list them. -/
def Algorithm.choices : List (String × Algorithm) :=
  [.hs256, .hs384, .hs512, .es256, .es384, .rs256, .rs384, .rs512, .ps256, .ps384, .ps512,
    .edDSA].map fun a => (a.name, a)

/-- A header, as far as it matters. -/
structure Header where
  alg : Algorithm
deriving DecidableEq, Repr

/-- A member that is read and forgotten. -/
def ignored (field : (Option α → ρ → ρ) → Record.Field ρ) : Record.Field ρ := field fun _ r => r

/-- The names that a choice accepts, all alike. -/
def names (l : List String) : List (String × Unit) := l.map fun s => (s, ())

/-- The members that every key may have. -/
def keyForm : Record Unit where
  name := "CommonParameters"
  fields :=
    [ignored (.optional "use" .string),
     ignored (.optional "key_ops" (.list .string)),
     ignored (.optional "alg" (.choice (names ["HS256", "HS384", "HS512", "ES256", "ES384",
      "RS256", "RS384", "RS512", "PS256", "PS384", "PS512", "EdDSA", "RSA1_5", "RSA-OAEP",
      "RSA-OAEP-256"]))),
     ignored (.optional "kid" .string),
     ignored (.optional "x5u" .string),
     ignored (.optional "x5c" (.list .string)),
     ignored (.optional "x5t" .string),
     ignored (.optional "x5t#S256" .string)]
  empty := ()
  undeclared := .dropped

/-- The curves that a key may name. -/
def curves : List (String × Unit) := names ["P-256", "P-384", "P-521", "Ed25519"]

/-- A form of key: its type and the members that come with it. -/
def keyTypeForm (name type : String) (fields : List (Record.Field Unit)) : Record Unit where
  name
  fields := .mandatory "kty" (.choice (names [type])) (fun _ r => r) :: fields
  empty := ()
  undeclared := .dropped

def keyTypeForms : List (Record Unit) :=
  let text (name : String) : Record.Field Unit := .mandatory name .string fun _ r => r
  let curve : Record.Field Unit := .mandatory "crv" (.choice curves) fun _ r => r
  [keyTypeForm "EllipticCurveKeyParameters" "EC" [curve, text "x", text "y"],
   keyTypeForm "RSAKeyParameters" "RSA" [text "n", text "e"],
   keyTypeForm "OctetKeyParameters" "oct" [text "k"],
   keyTypeForm "OctetKeyPairParameters" "OKP" [curve, text "x"]]

/-- Reads a key. Its common members are checked first; the others have to fit one of the forms. -/
def keyDecoder : Decoder Unit := fun place d =>
  match d with
  | .object members => do
    let inner ← liftFault place.enter
    let members ← liftFault (members.values inner)
    let common := keyForm.fields.map (·.name)
    decodeValue keyForm.decoder (.object members)
    let others := members.filter fun m => !common.contains m.1
    let fits (r : Record Unit) : Bool := (decodeValue r.decoder (.object others)).isOk
    if keyTypeForms.any fits then return () else throw (.noForm "AlgorithmParameters")
  | d => .error (d.mismatch "struct Jwk")

def Header.form : Record Header where
  name := "Header"
  fields :=
    [ignored (.nullable "typ" .string),
     .mandatory "alg" (.choice Algorithm.choices) fun v h => { h with alg := v },
     ignored (.nullable "cty" .string),
     ignored (.nullable "jku" .string),
     ignored (.nullable "jwk" keyDecoder),
     ignored (.nullable "kid" .string),
     ignored (.nullable "x5u" .string),
     ignored (.nullable "x5c" (.list .string)),
     ignored (.nullable "x5t" .string),
     ignored (.nullable "x5t#S256" .string)]
  empty := { alg := .hs256 }
  undeclared := .dropped

/-- The header of every token that is issued. -/
def headerText : String :=
  (Value.object [("typ", .string "JWT"), ("alg", .string Algorithm.hs256.name)]).compact

end RemoteSigning.Token
