import RemoteSigning.CommandLine.Run
/-!
# The program

Reads its words and variables, runs the command and prints what it says. The program has no network
of its own: what would use one finds it unreachable.
-/

namespace RemoteSigning

open CommandLine

/-- The names of the variables that the program reads. -/
def variableNames : List String :=
  ["TANDEM_RP_URL", "TANDEM_CLIENT_ID", "TANDEM_CLIENT_SECRET", "TANDEM_RP_TIMEOUT_SECS",
    "TANDEM_RP_MAX_RETRIES"]

/-- The variables that are set. -/
def readEnvironment : IO Environment :=
  variableNames.filterMapM fun name => do return (← IO.getEnv name).map (name, ·)

/-- A world without a network. -/
def offline (environment : Environment) : World where
  environment := environment
  network := .unreachable
  dial := fun _ => .error "Network is unreachable"
  now := ⟨0, 0⟩

end RemoteSigning

def main (words : List String) : IO UInt32 := do
  let world := RemoteSigning.offline (← RemoteSigning.readEnvironment)
  let completion := RemoteSigning.CommandLine.runWords world words
  let stdout ← IO.getStdout
  completion.output.forM stdout.putStrLn
  stdout.flush
  if let some message := completion.message then IO.eprintln ("Error: " ++ message)
  return completion.exitCode.number.toUInt32
