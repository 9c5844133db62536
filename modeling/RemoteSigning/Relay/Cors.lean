import RemoteSigning.Relay.Http
/-!
# Requests across origins

What a relay tells browsers about the origins whose pages may talk to it. Either every origin is let
in, or only those of a list.
-/

namespace RemoteSigning.Relay

/-- Which origins are let in. -/
inductive Cors where
  | anyOrigin
  | only (origins : List String)
deriving DecidableEq, Repr

namespace Cors

/-- Whether a character may occur in the value of a header field. -/
def isFieldCharacter (c : Char) : Bool := c == '\t' || (0x20 ≤ c.toNat && c.toNat < 0x7F)

/-- The name of all origins, which cannot be an entry of a list. -/
def wildcard : String := "*"

/-- The rule for a setting. An empty list is as good as none, and entries that no header can hold
are left out. There is no rule for a list with the wildcard, and a relay with one does not start. -/
def ofSetting : Option (List String) → Option Cors
  | none => some .anyOrigin
  | some [] => some .anyOrigin
  | some origins =>
    let origins := origins.filter (·.toList.all isFieldCharacter)
    if origins.contains wildcard then none else some (.only origins)

def vary : String × String :=
  ("vary", "origin, access-control-request-method, access-control-request-headers")

/-- The field that lets the origin of a request in. -/
def allowOrigin (c : Cors) (r : Request) : Headers :=
  match c with
  | .anyOrigin => [("access-control-allow-origin", wildcard)]
  | .only origins =>
    match r.header? "origin" with
    | some origin =>
      if origins.contains origin then [("access-control-allow-origin", origin)] else []
    | none => []

def allowRequests : Cors → Headers
  | .anyOrigin =>
    [("access-control-allow-methods", "*"), ("access-control-allow-headers", "*")]
  | .only _ =>
    [("access-control-allow-methods", "GET,OPTIONS"),
      ("access-control-allow-headers", "content-type,accept")]

/-- Whether a request only asks what would be allowed. -/
def isPreflight (r : Request) : Bool := r.method == "OPTIONS"

/-- Answers a request under the rule; `respond` answers it otherwise. -/
def apply (c : Cors) (respond : Request → Response) (r : Request) : Response :=
  if isPreflight r then
    { status := 200, headers := c.allowOrigin r ++ c.allowRequests ++ [vary] }
  else
    let response := respond r
    { response with headers := c.allowOrigin r ++ vary :: response.headers }

end Cors

end RemoteSigning.Relay
