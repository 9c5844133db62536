import RemoteSigning.Ceremony.Challenge
import RemoteSigning.CommandLine.ExitCode
import RemoteSigning.Outcome
/-!
# What is printed

The lines in which challenges, claims and outcomes are shown.
-/

namespace RemoteSigning.CommandLine

open Ceremony Time

def labelled (label content : String) : String := "   " ++ label ++ ": " ++ content

def verificationText : UserVerification → String
  | .required => "Required"
  | .preferred => "Preferred"
  | .discouraged => "Discouraged"

def expiryText (c : Challenge) (now t : Instant) : String :=
  t.toPlainText ++ if c.isExpired now then " (expired)" else ""

def challengeLines (c : Challenge) (now : Instant) : List String :=
  ["Challenge " ++ c.id, labelled "Ceremony" c.kind.name]
    ++ (if c.app.name = "" then [] else [labelled "App" c.app.name])
    ++ (c.options.userVerification.map fun v =>
        labelled "User verification" (verificationText v)).toList
    ++ (c.signData.elim [] fun s =>
        labelled "Text" s.text
          :: (s.data.map fun d => labelled "Data" (toString d.length ++ " bytes")).toList)
    ++ (c.expiresAt.map fun t => labelled "Expires" (expiryText c now t)).toList

/-- Yes or no. -/
def yesOrNo (b : Bool) : String := if b then "yes" else "no"

def signedLines (a : SignedAssertion) : List String :=
  ["", "╔════════════════════════════════════════╗",
    "║                SIGNED                  ║",
    "╚════════════════════════════════════════╝", "",
    labelled "Challenge" a.challengeId, labelled "User" a.userId]
    ++ (a.signed.map fun t => labelled "Signed at" t.toPlainText).toList
    ++ [labelled "User present" (yesOrNo a.userPresent),
      labelled "User verified" (yesOrNo a.userVerified)]

/-- The problem with the outcome in which a collection ends. -/
def outcomeProblem? : Outcome → Option Problem
  | .signed _ => none
  | .rejected => some (.other "Challenge rejected by the signer")
  | .error code message =>
    some (.other (
      if code = Outcome.timeoutCode then "Challenge timed out: " ++ message
      else if code = Outcome.transportCode then "Relying party unavailable: " ++ message
      else "Collect failed (" ++ code ++ "): " ++ message))
  | _ => some (.other "Collection ended before the challenge was completed")

/-- The lines about the outcome in which a collection ends. -/
def outcomeLines (json quiet : Bool) : Outcome → List String
  | .signed a => if json then [a.toValue.indented] else if quiet then [] else signedLines a
  | .rejected => if quiet then [] else ["", "   REJECTED"]
  | _ => []

end RemoteSigning.CommandLine
