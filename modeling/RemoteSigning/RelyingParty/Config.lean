import RemoteSigning.Environment
import RemoteSigning.Failure
import RemoteSigning.Number.Decimal
import RemoteSigning.Text.Quoted
import RemoteSigning.Url.Parse
/-!
# How a relying party is reached
-/

namespace RemoteSigning.RelyingParty

open Number

/-- How a relying party is reached. -/
structure Config where
  baseUrl : Url
  clientId : Option String := none
  clientSecret : Option ClientSecret := none
  /-- How long a request may take, in milliseconds. -/
  timeout : Nat := 10000
  maxRetries : Nat := 3
  /-- The first pause before a request is sent again, in milliseconds. -/
  initialPause : Nat := 100
  /-- The longest pause, in milliseconds. -/
  longestPause : Nat := 2000
deriving DecidableEq

/-- The time in which a request may be sent again, in milliseconds. -/
def Config.patience (c : Config) : Nat := c.timeout * c.maxRetries

/-- The seconds that can be counted. -/
def countableSeconds : Nat := 2 ^ 64

/-- Whether the time in which a request may be sent again can be counted. -/
def Config.isCountable (c : Config) : Bool := c.patience < countableSeconds * 1000

/-- Where a relying party is looked for unless told otherwise. -/
def defaultBaseUrl : String := "http://localhost:8080"

/-- The configuration that an environment asks for. A number that cannot be read does not count. -/
def Config.ofEnvironment (env : Environment) : Except Failure Config := do
  let location := (env.lookup "TANDEM_RP_URL").getD defaultBaseUrl
  let baseUrl ← (Url.parse location).mapError fun e =>
    .badConfig ("TANDEM_RP_URL " ++ Text.Quoted.encode location ++ " is not a URL: " ++ e.message)
  let config : Config := { baseUrl }
  let timeout := ((env.lookup "TANDEM_RP_TIMEOUT_SECS").bind (natBelow? (2 ^ 64))).map (· * 1000)
  let maxRetries := (env.lookup "TANDEM_RP_MAX_RETRIES").bind (natBelow? (2 ^ 32))
  return { config with
    clientId := env.lookup "TANDEM_CLIENT_ID"
    clientSecret := (env.lookup "TANDEM_CLIENT_SECRET").map ClientSecret.mk
    timeout := timeout.getD config.timeout
    maxRetries := maxRetries.getD config.maxRetries }

end RemoteSigning.RelyingParty
