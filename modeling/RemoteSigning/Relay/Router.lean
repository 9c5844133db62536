import RemoteSigning.Json.Error
import RemoteSigning.Relay.Api
import RemoteSigning.Relay.Cors
import RemoteSigning.Relay.Hub
import RemoteSigning.Relay.RateLimit
import RemoteSigning.Text.Search
import RemoteSigning.Url.Percent
import RemoteSigning.Version
/-!
# The routes of a relay

A relay answers on its health and lets devices join rooms. Whoever asks for a room has to ask for a
socket in the same request; the name of the room is checked first.
-/

namespace RemoteSigning.Relay

open Json Text

/-- What a path leads to. -/
inductive Route where
  | health
  | ready
  | room (segment : String)
  | nowhere
deriving DecidableEq, Repr

def roomRoute : String := "/api/v1/remote/"

/-- The name of a room that a path leads to. -/
def roomSegment? (path : String) : Option String :=
  let cs := path.toList
  let start := roomRoute.toList
  if start.isPrefixOf cs then
    let segment := cs.drop start.length
    if segment.isEmpty || segment.contains '/' then none else some (String.ofList segment)
  else none

def Route.ofPath (path : String) : Route :=
  if path = "/health" then .health
  else if path = "/ready" then .ready
  else
    match roomSegment? path with
    | some segment => .room segment
    | none => .nowhere

/-- The response that reports an error. -/
def ApiError.response (e : ApiError) : Response := .json e.status e.toValue.compact

/-- The response on the health of a relay with a number of rooms. -/
def healthResponse (rooms : Nat) : Response :=
  .json 200 (Value.object [("status", .string "healthy"), ("version", .string version),
    ("service", .string "tandem-server"), ("rooms", .integer rooms)]).compact

/-- The response on whether a relay serves requests. -/
def readyResponse : Response := .json 200 (Value.object [("ready", .bool true)]).compact

/-- Whether two texts are the same but for the case of ASCII letters. -/
def sameButCase (a b : String) : Bool := a.map Char.toLower == b.map Char.toLower

/-- Whether a text occurs in another one, whatever the case of ASCII letters. -/
def occursButCase (part whole : String) : Bool :=
  occurs (part.map Char.toLower).toList (whole.map Char.toLower).toList

/-- Checks that a request asks for a socket. -/
def checkUpgrade (r : Request) : Except Response Unit := do
  if r.method ≠ "GET" then throw (.plain 405 ("Request method must be " ++ ticked "GET"))
  if !(r.header? "connection").any (occursButCase "upgrade" ·) then
    throw (.plain 400 "Connection header did not include 'upgrade'")
  if !(r.header? "upgrade").any (sameButCase "websocket" ·) then
    throw (.plain 400 (ticked "Upgrade" ++ " header did not include 'websocket'"))
  if (r.header? "sec-websocket-key").isNone then
    throw (.plain 400 (ticked "Sec-WebSocket-Key" ++ " header missing"))
  if !(r.header? "sec-websocket-version").any (sameButCase "13" ·) then
    throw (.plain 400 (ticked "Sec-WebSocket-Version" ++ " header did not include '13'"))

/-- The room that a request asks to join, given its name as it is written in the path. -/
def requestedRoom (segment : String) (r : Request) : Except Response String := do
  let some id := ofOctets? (Url.Percent.decode (octets segment))
    | throw (.plain 400 ("Invalid URL: Invalid UTF-8 in " ++ ticked "id"))
  (checkRoomId id).mapError ApiError.response
  checkUpgrade r
  return id

/-- The room that a request joins if its connection can become a socket. -/
def joinedRoom? (r : Request) : Option String :=
  match Route.ofPath r.path with
  | .room segment => (requestedRoom segment r).toOption
  | _ => none

/-- The response to a request for a room if there is no connection that could become a socket. -/
def noSocketResponse : Response :=
  .plain 426 "WebSocket request couldn't be upgraded since no upgrade state was present"

/-- Whether a route takes requests of a method. A room or a report can only be got. -/
def takesMethod (method : String) : Bool := method == "GET" || method == "HEAD"

/-- The field that names the methods that a route takes. -/
def allow : String × String := ("allow", "GET,HEAD")

def Route.respond (route : Route) (rooms : Nat) (r : Request) : Response :=
  match route with
  | .nowhere => (ApiError.notFound ("No route for " ++ r.path)).response
  | route =>
    if !takesMethod r.method then { status := 405 }
    else
      match route with
      | .room segment =>
        match requestedRoom segment r with
        | .ok _ => noSocketResponse
        | .error response => response
      | .ready => readyResponse
      | _ => healthResponse rooms

/-- Adds what a route says about its methods to a request of another one. -/
def withAllow (route : Route) (r : Request) (response : Response) : Response :=
  if route = .nowhere ∨ takesMethod r.method then response
  else { response with headers := allow :: response.headers }

/-- Leaves out the body of the response to a request for the header alone. -/
def withoutBody (r : Request) (response : Response) : Response :=
  if r.method = "HEAD" then { response with body := "" } else response

/-- A relay that answers requests. -/
structure Router where
  cors : Cors
  limiter : Option Limiter
  rooms : Nat
deriving DecidableEq, Repr

namespace Router

/-- The router that settings ask for. A relay does not start with origins or limits that cannot be
enforced. -/
def ofConfig? (c : Config) (rooms : Nat) : Option Router := do
  let cors ← Cors.ofSetting c.allowedOrigins
  let limiter := Limiter.ofConfig? c
  guard (limiter.all Limiter.isCountable)
  return { cors, limiter, rooms }

/-- The response to a request that is within the limits. -/
def respond (router : Router) (r : Request) : Response :=
  let route := Route.ofPath r.path
  withoutBody r (withAllow route r (router.cors.apply (route.respond router.rooms) r))

def handle (router : Router) (now : Nat) (r : Request) : Response × Router :=
  match router.limiter with
  | none => (router.respond r, router)
  | some l =>
    match l.accept r.client now with
    | .ok l => (router.respond r, { router with limiter := some l })
    | .error response => (response, router)

end Router

end RemoteSigning.Relay
