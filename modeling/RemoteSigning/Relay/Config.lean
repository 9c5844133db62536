import RemoteSigning.Environment
import RemoteSigning.Number.Decimal
import RemoteSigning.Relay.Address
import RemoteSigning.Text.Blank
/-!
# Settings of a relay
-/

namespace RemoteSigning.Relay

open Number Text

/-- The settings of a relay. -/
structure Config where
  port : Nat := 8080
  host : Address := .loopback
  /-- The origins that browsers may come from. -/
  allowedOrigins : Option (List String) := none
  /-- How long a request may take, up to the upgrade to a socket. -/
  timeoutSeconds : Nat := 30
  rateLimitEnabled : Bool := false
  /-- The seconds in which one more request becomes possible. -/
  rateLimitPerSecond : Nat := 10
  rateLimitBurst : Nat := 20
  /-- The longest message that a peer may send. -/
  maxFrameBytes : Nat := 65536
deriving DecidableEq, Repr

/-- The number in a variable. White space around it does not count. -/
def Config.number? (env : Environment) (bound : Nat) (name : String) : Option Nat :=
  (env.lookup name).bind fun text => natBelow? bound (trim text)

/-- The number in a variable in which zero is as good as nothing. -/
def Config.positive? (env : Environment) (bound : Nat) (name : String) : Option Nat :=
  (number? env bound name).filter (· != 0)

/-- The parts of a text between commas, without white space around them and without empty ones. -/
def Config.parts (text : String) : List String :=
  ((text.toList.splitOn ',').map fun cs => trim (String.ofList cs)).filter (· != "")

/-- The settings that an environment asks for. What cannot be read does not count. Requests are
limited unless the environment says otherwise. -/
def Config.ofEnvironment (env : Environment) : Config :=
  let defaults : Config := {}
  let host := (env.lookup "HOST").bind fun text => Address.ofText? (trim text)
  { port := (number? env (2 ^ 16) "PORT").getD defaults.port
    host := host.getD defaults.host
    allowedOrigins := (env.lookup "ALLOWED_ORIGINS").map parts
    timeoutSeconds := (number? env (2 ^ 64) "REQUEST_TIMEOUT_SECS").getD defaults.timeoutSeconds
    rateLimitEnabled :=
      (env.lookup "RATE_LIMIT_ENABLED").all fun text => text.map Char.toLower != "false"
    rateLimitPerSecond :=
      (positive? env (2 ^ 64) "RATE_LIMIT_PER_SEC").getD defaults.rateLimitPerSecond
    rateLimitBurst := (positive? env (2 ^ 32) "RATE_LIMIT_BURST").getD defaults.rateLimitBurst
    maxFrameBytes := (positive? env (2 ^ 64) "MAX_FRAME_BYTES").getD defaults.maxFrameBytes }

/-- The address of the socket on which the relay listens. -/
def Config.socketText (c : Config) : String := c.host.socketText c.port

end RemoteSigning.Relay
