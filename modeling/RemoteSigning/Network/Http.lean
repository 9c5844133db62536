import RemoteSigning.Base64
import RemoteSigning.Url.Parse
/-!
# Requests over a network

What a client sends and what becomes of it. A network is a function of everything that was sent
before, so that nothing about the party at its other end is fixed. Time is counted in milliseconds.
-/

namespace RemoteSigning

namespace Network

/-- A request. -/
structure Request where
  method : String
  url : Url
  /-- The values of the field `authorization`. -/
  authorization : List String := []
  /-- The JSON text that is sent along. -/
  json : Option String := none
deriving DecidableEq

def Request.contentType (r : Request) : Option String := r.json.map fun _ => "application/json"

/-- A response. -/
structure Response where
  status : Nat
  body : List UInt8
deriving DecidableEq

/-- What becomes of a request. -/
inductive Reply where
  /-- No connection was made; the causes go from the outermost to the innermost. -/
  | unreachable (causes : List String)
  /-- There was a connection, but it broke before there was a status. -/
  | broken (causes : List String)
  | answered (r : Response)
  /-- There is a status, but the body breaks off. -/
  | cutOff (status : Nat) (causes : List String)
deriving DecidableEq

/-- A reply, and how long it takes. -/
structure Arrival where
  reply : Reply
  /-- The time until there is a status, or until it is clear that there will be none. -/
  delay : Nat := 0
  /-- The time that the body takes behind the status. -/
  bodyDelay : Nat := 0
deriving DecidableEq

end Network

/-- What becomes of a request after others, oldest first. -/
abbrev Network := List Network.Request → Network.Request → Network.Arrival

namespace Network

/-- Why there is no connection on a machine without a network. -/
def noNetwork : List String :=
  ["client error (Connect)", "tcp connect error", "Network is unreachable (os error 101)"]

/-- The network of a machine without one. -/
def unreachable : Network := fun _ _ => { reply := .unreachable noNetwork }

/-- Those of the requests for which there was a connection, when others were sent before. -/
def received (n : Network) (before : List Request) : List Request → List Request
  | [] => []
  | r :: rest =>
    let later := received n (before ++ [r]) rest
    match (n before r).reply with
    | .unreachable _ => later
    | _ => r :: later

/-- The value of the field `authorization` for a user with a password. -/
def basicAuthorization (user password : String) : String :=
  "Basic " ++ Base64.encodeStandard (Text.octets (user ++ ":" ++ password))

/-- The text that an escaped text stands for. -/
def unescaped? (text : String) : Option String :=
  Text.ofOctets? (Url.Percent.decode (Text.octets text))

/-- A request for a URL. Credentials in the URL are sent in the header instead, unless the name of
the user cannot be read. -/
def Request.make (method : String) (url : Url) (json : Option String) : Request :=
  match unescaped? url.username with
  | some user =>
    if url.username = "" ∧ url.password = "" then { method, url, json }
    else
      { method
        url := { url with username := "", password := "" }
        authorization := [basicAuthorization user ((unescaped? url.password).getD "")]
        json }
  | none => { method, url, json }

def Request.authorize (r : Request) (user password : String) : Request :=
  { r with authorization := r.authorization ++ [basicAuthorization user password] }

/-- Whether requests can be sent to URLs of a scheme. -/
def isSendable (scheme : String) : Bool := scheme == "http" || scheme == "https"

end Network

end RemoteSigning
