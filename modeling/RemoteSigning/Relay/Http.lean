import RemoteSigning.Relay.Address
/-!
# Requests to a relay and its responses
-/

namespace RemoteSigning.Relay

abbrev Headers := List (String × String)

/-- A request. -/
structure Request where
  method : String
  /-- The path, which a query may follow. -/
  target : String
  headers : Headers := []
  client : Option Address := none
deriving DecidableEq, Repr

def Request.path (r : Request) : String :=
  String.ofList (r.target.toList.takeWhile fun c => c != '?' && c != '#')

def Request.header? (r : Request) (name : String) : Option String := r.headers.lookup name

/-- A response. -/
structure Response where
  status : Nat
  headers : Headers := []
  body : String := ""
deriving DecidableEq, Repr

def Response.plain (status : Nat) (body : String) : Response :=
  { status, headers := [("content-type", "text/plain; charset=utf-8")], body }

def Response.json (status : Nat) (body : String) : Response :=
  { status, headers := [("content-type", "application/json")], body }

end RemoteSigning.Relay
