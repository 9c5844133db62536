import RemoteSigning.CommandLine.Command
import RemoteSigning.CommandLine.Watch
import RemoteSigning.Text.Blank
import RemoteSigning.Token.Basic
import RemoteSigning.Token.Display
import RemoteSigning.Version
/-!
# Running commands

What a command prints and how it ends, as a function of everything around the program.
-/

namespace RemoteSigning.CommandLine

open Ceremony RelyingParty Time

/-- Everything around the program. -/
structure World where
  environment : Environment
  network : Network
  /-- The choices of chance for the pauses between requests. -/
  chance : Nat → Nat := fun _ => 0
  dial : Url → Except String Session.Socket
  now : Instant
  /-- How long the clock of the machine has been running, in milliseconds. -/
  uptime : Nat := 1000
  happenings : String → List Happening := fun _ => []

/-- How a command is done. -/
structure Completion where
  output : List String := []
  exitCode : ExitCode := .success
  message : Option String := none
  log : Log := {}

namespace Completion

/-- A command that fails. -/
def failed (output : List String) (p : Problem) (log : Log) : Completion :=
  { output, exitCode := p.exitCode, message := some p.message, log }

/-- A command that comes upon a value that it cannot work with. -/
def crashed (output : List String) (log : Log) : Completion :=
  { output, exitCode := .crashed, log }

/-- A command that ends with the outcome of a challenge. -/
def ofOutcome (json quiet : Bool) (output : List String) (o : Outcome) (log : Log) : Completion :=
  let output := output ++ outcomeLines json quiet o
  match outcomeProblem? o with
  | none => { output, log }
  | some p => failed output p log

end Completion

/-- The line that shows a token, or the link with it under a base. -/
def tokenLine (challengeId secret : String) (elapsed : Nat) (base : Option Url) : String :=
  let token := Token.issue ⟨secret⟩ ⟨challengeId, elapsed⟩
  base.elim token fun base => (Token.link base token).text

/-- The token in a text, which may be a link. -/
def extractToken (text : String) : String :=
  ((Url.parse text).toOption.bind Token.ofLink?).getD (Text.trim text)

def claimsLines (json quiet : Bool) (c : Token.Claims) : List String :=
  if json then [c.toValue.indented]
  else if quiet then []
  else ["Valid token (HS256)", labelled "Challenge" c.challengeId,
    labelled "Elapsed" (toString c.elapsedSeconds ++ "s")]

def verifyToken (text secret : String) (json quiet : Bool) : Completion :=
  match Token.verify ⟨secret⟩ (extractToken text) with
  | .ok c => { output := claimsLines json quiet c }
  | .error e => .failed [] (.failure (some "Token verification failed") (.verify e)) {}

/-- The client that a command uses. Its arguments go before the environment. -/
def connect (w : World) (a : Access) : Except Problem RelyingParty.Client := do
  let config ← (RelyingParty.Config.ofEnvironment w.environment).mapError
    (.failure (some "Invalid relying party configuration"))
  let config := { config with
    baseUrl := a.url.getD config.baseUrl
    clientId := a.clientId <|> config.clientId
    clientSecret := a.clientSecret.map ClientSecret.mk <|> config.clientSecret }
  return { config, network := w.network, chance := w.chance }

/-- Whether the client cannot read from a path for lack of numbers. -/
def cannotRead (c : RelyingParty.Client) (path : String) : Bool :=
  !c.config.isCountable && (c.config.baseUrl.resolve path).toOption.isSome

def showChallenge (w : World) (a : Access) (challengeId : String) (quiet : Bool) : Completion :=
  match connect w a with
  | .error p => .failed [] p {}
  | .ok client =>
    if cannotRead client (Client.challengePath challengeId) then .crashed [] {}
    else
      match client.fetch challengeId {} with
      | (.error f, log) => .failed [] (.failure (some "Failed to fetch challenge") f) log
      | (.ok c, log) => { output := if quiet then [] else challengeLines c w.now, log }

/-- Where the signing device goes when it has declined. -/
def redirectLines : Redirect → List String
  | .close => []
  | .navigate u => [labelled "Redirect" u.text]

def rejectChallenge (w : World) (a : Access) (challengeId : String) (quiet : Bool) : Completion :=
  match connect w a with
  | .error p => .failed [] p {}
  | .ok client =>
    match client.reject challengeId {} with
    | (.error f, log) => .failed [] (.failure (some "Failed to reject challenge") f) log
    | (.ok r, log) =>
      { output := if quiet then [] else ("Declined " ++ challengeId) :: redirectLines r, log }

/-- The statuses that are shown: those before the end, and no status twice in a row. -/
def statusLines (shown : Option String) : List Outcome → List String
  | [] => []
  | o :: rest =>
    if o.isTerminal ∨ shown = some o.status then statusLines shown rest
    else labelled "Status" o.status :: statusLines (some o.status) rest

/-- The milliseconds after which a clock stands still. -/
def clockEnd : Nat := 2 ^ 63 * 1000

/-- Whether the clock cannot tell when a time from now is over. -/
def World.cannotTell (w : World) (ms : Nat) : Bool := clockEnd ≤ w.uptime + ms

/-- The collection that options ask for. -/
def CollectOptions.collection (o : CollectOptions) : Collection :=
  { challengeId := o.challengeId
    interval := o.interval
    maxDuration := some (o.maxSeconds * 1000) }

/-- Whether the collection comes upon a value that it cannot work with: there are no ticks without
time between them, the clock cannot tell its first tick or its deadline, or it sends requests
although the client cannot read. -/
def CollectOptions.crashes (o : CollectOptions) (w : World) (client : RelyingParty.Client) : Bool :=
  o.collection.isStuck || w.cannotTell o.interval || w.cannotTell (o.maxSeconds * 1000)
    || (o.interval < o.maxSeconds * 1000 && cannotRead client Client.collectPath)

def collect (w : World) (a : Access) (o : CollectOptions) (json quiet : Bool) : Completion :=
  match connect w a with
  | .error p => .failed [] p {}
  | .ok client =>
    if o.crashes w client then .crashed [] {}
    else
      let c := o.collection
      let turns := c.run (client.source {}) (c.turnLimit.getD 0) 0 0
      let outcomes := turns.filterMap (·.result)
      let asked := turns.foldl (fun n t => t.asked n) 0
      let output := if quiet then [] else statusLines none outcomes
      .ofOutcome json quiet output (outcomes.getLast?.getD .pending)
        (client.logAfter o.challengeId {} asked)

/-- The request for the challenge that is displayed. -/
def DisplayOptions.request (o : DisplayOptions) : SignRequest :=
  let r := SignRequest.forUser o.user
  let r := o.text.elim r fun text => r.withSignData { text, data := o.data.map Text.octets }
  { r with
    userVerification := if o.requireVerification then some .required else none
    redirect := o.redirect
    timeout := some o.timeout }

/-- Displays a challenge that was issued and fetched, and waits for its outcome. -/
def watch (w : World) (client : RelyingParty.Client) (o : DisplayOptions) (json quiet : Bool)
    (issued : IssuedChallenge) (c : Challenge) (log : Log) : Completion :=
  let display : Token.Display :=
    { challengeId := issued.challengeId, secret := issued.secret
      baseUrl := client.config.baseUrl, issuedAt := log.now }
  let heading := if quiet then [] else
    challengeLines c w.now ++ ["", "Scan the link below on the signing device:"]
  let relay := o.relay.getD client.config.baseUrl
  let joined := Session.Client.connect w.dial relay issued.challengeId c.kind
  let start : Watch :=
    { session := joined.toOption.map (·.session)
      lines := heading ++ [(display.freshLink log.now).text]
      log }
  let watched : Watched := { client, challengeId := issued.challengeId, quiet }
  match start.run watched (w.happenings issued.challengeId) with
  | (.ok outcome, watch) => .ofOutcome json quiet watch.lines outcome watch.log
  | (.error p, watch) => .failed watch.lines p watch.log

/-- Issues a challenge, displays it and waits for its outcome. -/
def display (w : World) (a : Access) (o : DisplayOptions) (json quiet : Bool) : Completion :=
  match connect w a with
  | .error p => .failed [] p {}
  | .ok client =>
    match o.request.validate with
    | .error f => .failed [] (.failure none f) {}
    | .ok _ =>
      match client.issue o.request {} with
      | (.error f, log) => .failed [] (.failure (some "Failed to issue challenge") f) log
      | (.ok issued, log) =>
        if cannotRead client (Client.challengePath issued.challengeId) then .crashed [] log
        else
          match client.fetch issued.challengeId log with
          | (.error f, log) => .failed [] (.failure (some "Failed to fetch issued challenge") f) log
          | (.ok c, log) => watch w client o json quiet issued c log

def Invocation.run (w : World) (i : Invocation) : Completion :=
  match i.command with
  | .display a o json => display w a o json i.quiet
  | .collect a o json => collect w a o json i.quiet
  | .showChallenge a challengeId => showChallenge w a challengeId i.quiet
  | .rejectChallenge a challengeId => rejectChallenge w a challengeId i.quiet
  | .issueToken challengeId secret elapsed base =>
    { output := [tokenLine challengeId secret elapsed base] }
  | .verifyToken token secret json => verifyToken token secret json i.quiet

/-- The completion when no command is run. -/
def Stop.completion : Stop → Completion
  | .usage => { exitCode := .usage }
  | .help => { output := ["Usage: tandem [OPTIONS] <COMMAND>"] }
  | .version => { output := ["tandem " ++ RemoteSigning.version] }

/-- Runs the command that words ask for. -/
def runWords (w : World) (words : List String) : Completion :=
  match Invocation.ofWords words with
  | .ok i => i.run w
  | .error s => s.completion

end RemoteSigning.CommandLine
