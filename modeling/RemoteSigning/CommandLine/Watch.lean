import RemoteSigning.CommandLine.Report
import RemoteSigning.RelyingParty.Client
import RemoteSigning.Session.Client
/-!
# Watching a displayed challenge

While a challenge is displayed, three things go on at once: links are published, the outcome is
collected, and the relay tells of the signing device. They are handled one by one, in the order in
which they happen, until the outcome is terminal or a credential cannot be passed on.
-/

namespace RemoteSigning.CommandLine

open Session Ceremony RelyingParty

/-- What happens while a challenge is displayed. -/
inductive Happening where
  | published (u : Url)
  /-- No more links will be displayed. -/
  | displayEnded
  | polled (o : Outcome)
  | arrived (m : Session.Message)
deriving DecidableEq

/-- A displayed challenge and who waits for it. -/
structure Watched where
  client : RelyingParty.Client
  challengeId : String
  quiet : Bool

/-- How far things are. -/
structure Watch where
  session : Option Session
  /-- Whether the user knows that the code was scanned. -/
  scanned : Bool := false
  /-- Whether links are displayed. -/
  rotating : Bool := true
  lines : List String := []
  log : Log := {}

/-- How watching goes on. -/
inductive Watch.Course where
  | goesOn (w : Watch)
  | ends (o : Outcome) (w : Watch)
  | fails (p : Problem) (w : Watch)

namespace Watch

/-- Prints a line unless all is to be quiet. -/
def say (d : Watched) (w : Watch) (line : String) : Watch :=
  if d.quiet then w else { w with lines := w.lines ++ [line] }

def scannedLine : String := "QR code was scanned"

/-- Tells the user, once, that the code was scanned. -/
def announceScan (d : Watched) (w : Watch) : Watch :=
  if w.scanned then w else { w with scanned := true }.say d scannedLine

def forward (d : Watched) (w : Watch) (c : Credential) : Course :=
  match d.client.submit d.challengeId c.encode w.log with
  | (.ok _, log) =>
    .goesOn ({ w with log }.say d "Signature received, waiting for confirmation")
  | (.error f, log) =>
    .fails (.failure (some "Failed to forward relayed credential") f) { w with log }

def handleEffect (d : Watched) (w : Watch) : Effect → Course
  | .peerJoined => .goesOn (w.announceScan d)
  | .peerLeft => .goesOn (w.say d "Signing device disconnected")
  | .credentialReceived c => w.forward d c
  | _ => .goesOn { w with session := none }

/-- Handles what arrives from the relay. After a failure nothing more is taken from it. -/
def handleMessage (d : Watched) (w : Watch) (s : Session) (m : Session.Message) : Course :=
  match s.receive m with
  | (.ok none, s) => .goesOn { w with session := some s }
  | (.ok (some e), s) => { w with session := some s }.handleEffect d e
  | (.error _, _) => .goesOn { w with session := none }

def handleOutcome (d : Watched) (w : Watch) (o : Outcome) : Course :=
  if o.isTerminal then .ends o w
  else if o = .viewed then .goesOn (w.announceScan d)
  else .goesOn w

def handle (d : Watched) (w : Watch) : Happening → Course
  | .published u => .goesOn (if w.rotating then w.say d u.text else w)
  | .displayEnded => .goesOn { w with rotating := false }
  | .polled o => w.handleOutcome d o
  | .arrived m =>
    match w.session with
    | some s => w.handleMessage d s m
    | none => .goesOn w

/-- The outcome when the collection stops without one. -/
def stopped : Outcome := .error Outcome.transportCode "collector stopped"

/-- Handles everything that happens until watching ends. When nothing more happens, the collection
has stopped. -/
def run (d : Watched) (w : Watch) : List Happening → Except Problem Outcome × Watch
  | [] => (.ok stopped, w)
  | h :: rest =>
    match w.handle d h with
    | .goesOn w => run d w rest
    | .ends o w => (.ok o, w)
    | .fails p w => (.error p, w)

end Watch

end RemoteSigning.CommandLine
