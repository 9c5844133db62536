import RemoteSigning.Failure
import RemoteSigning.Text.Search
/-!
# Exit codes

How a command ends, as scripts see it.
-/

namespace RemoteSigning.CommandLine

/-- How a command ends. -/
inductive ExitCode where
  | success
  | general
  | usage
  /-- The signer rejected the challenge, or a token was refused. -/
  | rejected
  | unavailable
  /-- The challenge was not completed in time. -/
  | timedOut
  /-- The program came upon a value that it cannot work with. -/
  | crashed
deriving DecidableEq, Repr

def ExitCode.number : ExitCode → Nat
  | .success => 0
  | .general => 1
  | .usage => 64
  | .rejected => 65
  | .unavailable => 69
  | .timedOut => 75
  | .crashed => 101

/-- Why a command fails. -/
inductive Problem where
  | failure (context : Option String) (f : Failure)
  | other (message : String)
deriving DecidableEq

/-- The wording of a problem, from the outermost cause to the innermost. -/
def Problem.message : Problem → String
  | .failure context f => ": ".intercalate (context.toList ++ f.message :: f.causes)
  | .other message => message

/-- How a command ends that fails with a failure. -/
def ExitCode.ofFailure : Failure → ExitCode
  | .verify _ => .rejected
  | .transport _ => .unavailable
  | .refused status _ _ =>
    if 500 ≤ status then .unavailable else if status = 400 then .usage else .general
  | .badRequest _ => .usage
  | .badConfig _ => .usage
  | _ => .general

/-- How a command ends that fails with a message: by what is said in it. -/
def ExitCode.ofMessage (message : String) : ExitCode :=
  let mentions (part : String) : Bool := Text.occurs part.toList message.toList
  if mentions "rejected" then .rejected
  else if mentions "timed out" then .timedOut
  else if mentions "unavailable" then .unavailable
  else .general

/-- How a command ends that fails. -/
def Problem.exitCode : Problem → ExitCode
  | .failure _ f => .ofFailure f
  | .other message => .ofMessage message

end RemoteSigning.CommandLine
