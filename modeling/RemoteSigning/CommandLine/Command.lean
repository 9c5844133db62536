import RemoteSigning.CommandLine.Arguments
import RemoteSigning.Number.Decimal
import RemoteSigning.RelyingParty.Request
/-!
# Commands

What a user can ask for on the command line.
-/

namespace RemoteSigning.CommandLine

open Number

/-- How a command reaches the relying party. What is missing comes from the environment. -/
structure Access where
  url : Option Url := none
  clientId : Option String := none
  clientSecret : Option String := none
deriving DecidableEq

/-- What to display, and for how long. -/
structure DisplayOptions where
  user : String
  text : Option String := none
  data : Option String := none
  requireVerification : Bool := false
  redirect : Option String := none
  /-- Where the relay is, if not at the relying party. -/
  relay : Option Url := none
  /-- How many seconds to wait. -/
  timeout : Nat := 300
deriving DecidableEq

/-- What to collect, and how. -/
structure CollectOptions where
  challengeId : String
  /-- The milliseconds between requests. -/
  interval : Nat := 500
  /-- How many seconds to wait. -/
  maxSeconds : Nat := 300
deriving DecidableEq

/-- A command. -/
inductive Command where
  /-- Issues a challenge, displays it and waits for the signature. -/
  | display (access : Access) (o : DisplayOptions) (json : Bool)
  | collect (access : Access) (o : CollectOptions) (json : Bool)
  | showChallenge (access : Access) (challengeId : String)
  | rejectChallenge (access : Access) (challengeId : String)
  | issueToken (challengeId secret : String) (elapsed : Nat) (base : Option Url)
  | verifyToken (token secret : String) (json : Bool)
deriving DecidableEq

/-- A command and how much it prints. -/
structure Invocation where
  command : Command
  /-- Whether only what machines read is printed. -/
  quiet : Bool
deriving DecidableEq

namespace Command

/-- The options by which a relying party is reached. -/
def accessOptions : List String := ["rp", "client-id", "client-secret"]

def all : Commands :=
  [(["display"],
      { options := accessOptions ++ ["user", "text", "data", "redirect", "relay", "timeout"]
        switches := ["require-uv", "json"] }),
   (["collect"],
      { operands := 1, options := accessOptions ++ ["interval-ms", "max-secs"]
        switches := ["json"] }),
   (["challenge", "show"], { operands := 1, options := accessOptions }),
   (["challenge", "reject"], { operands := 1, options := accessOptions }),
   (["token", "issue"], { operands := 3, options := ["base"] }),
   (["token", "verify"], { operands := 2, switches := ["json"] })]

/-- The URL in an option that may be missing. -/
def url? (a : Arguments) (name : String) : Except Stop (Option Url) :=
  match a.option? name with
  | none => .ok none
  | some text => ((Url.parse text).map some).mapError fun _ => .usage

/-- Reads a number of at most 64 bits. -/
def number (text : String) : Except Stop Nat :=
  match natBelow? (2 ^ 64) text with
  | some n => .ok n
  | none => .error .usage

def numberOr (a : Arguments) (name : String) (default : Nat) : Except Stop Nat :=
  match a.option? name with
  | none => .ok default
  | some text => number text

def access (a : Arguments) : Except Stop Access := do
  return { url := ← url? a "rp"
           clientId := a.option? "client-id"
           clientSecret := a.option? "client-secret" }

/-- What to display. There is no data without a text. -/
def displayOptions (a : Arguments) : Except Stop DisplayOptions := do
  let some user := a.option? "user" | throw .usage
  if (a.option? "data").isSome ∧ (a.option? "text").isNone then throw .usage
  return { user
           text := a.option? "text"
           data := a.option? "data"
           requireVerification := a.hasSwitch "require-uv"
           redirect := a.option? "redirect"
           relay := ← url? a "relay"
           timeout := ← numberOr a "timeout" 300 }

/-- The command that arguments ask for. -/
def ofArguments (a : Arguments) : Except Stop Command := do
  let json := a.hasSwitch "json"
  match a.path, a.operands with
  | ["display"], [] => return .display (← access a) (← displayOptions a) json
  | ["collect"], [challengeId] =>
    let interval ← numberOr a "interval-ms" 500
    let maxSeconds ← numberOr a "max-secs" 300
    return .collect (← access a) { challengeId, interval, maxSeconds } json
  | ["challenge", "show"], [challengeId] => return .showChallenge (← access a) challengeId
  | ["challenge", "reject"], [challengeId] => return .rejectChallenge (← access a) challengeId
  | ["token", "issue"], [challengeId, secret, elapsed] =>
    return .issueToken challengeId secret (← number elapsed) (← url? a "base")
  | ["token", "verify"], [token, secret] => return .verifyToken token secret json
  | _, _ => throw .usage

end Command

/-- The command that words ask for. -/
def Invocation.ofWords (words : List String) : Except Stop Invocation := do
  let a ← Arguments.ofWords Command.all words
  return { command := ← Command.ofArguments a, quiet := a.quiet }

end RemoteSigning.CommandLine
