import RemoteSigning.Proofs.Collection.Courses
import RemoteSigning.Proofs.CommandLine.ExitCodes
import RemoteSigning.Proofs.Results

/-!
# How commands end

The program documents six exit codes. A command ends with another one only if it comes upon a number
of the user's that is beyond what it can work with: ticks with no time between them, an instant that
no clock tells, or a time for repeated requests that is too long to be counted. The last of these
shows only when the command is about to read from the relying party.
-/

namespace RemoteSigning.Collection

variable {source : Source} {asked now limit : Nat} {c : Collection}

/-- A collection that has not been called yet sends a request exactly if its first tick comes before
its time is up. -/
theorem exists_request_iff (hRunning : c.finished = false) (hNew : c.schedule = none)
    (hLimit : c.maxDuration = some limit) (turns : Nat) :
    (∃ t ∈ c.run source (turns + 1) asked now, t.request.isSome) ↔ c.interval < limit := by
  have hSchedule : c.scheduleAt now = (now + c.interval, some (now + limit)) := by
    rw [scheduleAt, hNew, hLimit]
    rfl
  have hTick : tickAt (now + c.interval) now = now + c.interval :=
    Nat.max_eq_left (Nat.le_add_right _ _)
  have hMade := made_next source asked now c
  generalize hFirst : c.next source asked now = t at hMade
  have hRun : c.run source (turns + 1) asked now =
      if t.result.isNone then [] else t :: t.collection.run source turns (t.asked asked) t.doneAt := by
    rw [← hFirst]
    rfl
  cases hMade with
  | spent finished => rw [hRunning] at finished; cases finished
  | late running scheduled up =>
      obtain ⟨rfl, hDeadline⟩ := Prod.mk.inj (scheduled.symm.trans hSchedule)
      obtain rfl := Option.some.inj hDeadline
      -- The turn in which the time is up is the last one.
      have hOver (d : Collection) (hFinished : d.finished = true) (asked now : Nat) :
          d.run source turns asked now = [] := by
        cases turns with
        | zero => rfl
        | succ turns => simp [Collection.run, next, hFinished]
      rw [hTick] at up
      refine iff_of_false ?_ (by omega)
      rw [hRun]
      simp [hOver]
  | cut running scheduled inTime slow =>
      obtain ⟨rfl, hDeadline⟩ := Prod.mk.inj (scheduled.symm.trans hSchedule)
      obtain rfl := Option.some.inj hDeadline
      rw [hTick] at inTime
      rw [hRun]
      exact iff_of_true ⟨_, List.mem_cons_self, rfl⟩ (by omega)
  | answered running scheduled inTime =>
      obtain ⟨rfl, rfl⟩ := Prod.mk.inj (scheduled.symm.trans hSchedule)
      have hInTime := (inTime _ rfl).1
      rw [hTick] at hInTime
      rw [hRun]
      exact iff_of_true ⟨_, List.mem_cons_self, rfl⟩ (by omega)

end RemoteSigning.Collection

namespace RemoteSigning.CommandLine

open Number RelyingParty

/-- The exit codes that the program documents. -/
def documentedCodes : List Nat := [0, 1, 64, 65, 69, 75]

/-- Only the number of a crash is not documented. -/
theorem ExitCode.number_mem_documentedCodes (e : ExitCode) :
    e.number ∈ documentedCodes ↔ e ≠ .crashed := by
  cases e <;> decide

/-- No failure is reported as a crash. -/
theorem ExitCode.ofFailure_ne_crashed (f : Failure) : ExitCode.ofFailure f ≠ .crashed := by
  cases f with
  | refused status code reason => simp only [ofFailure]; split_ifs <;> simp
  | _ => simp [ofFailure]

/-- A problem ends a command with a documented code, however it is worded. -/
theorem Problem.exitCode_ne_crashed (p : Problem) : p.exitCode ≠ .crashed := by
  cases p with
  | failure context f => exact ExitCode.ofFailure_ne_crashed f
  | other message =>
      rw [Problem.exitCode, ofMessage_eq]
      split_ifs <;> decide

section Completions

variable {w : World} {a : Access} {client : Client} {json quiet : Bool} {output : List String}
  {log : Log}

/-- No problem is. -/
theorem Completion.failed_ne_crashed {p : Problem} :
    ¬(Completion.failed output p log).exitCode = .crashed := p.exitCode_ne_crashed

/-- No outcome is. -/
theorem Completion.ofOutcome_ne_crashed {o : Outcome} :
    ¬(Completion.ofOutcome json quiet output o log).exitCode = .crashed := by
  rw [ofOutcome]
  cases outcomeProblem? o with
  | none => exact ExitCode.noConfusion
  | some p => exact failed_ne_crashed

theorem verifyToken_ne_crashed {text secret : String} :
    ¬(verifyToken text secret json quiet).exitCode = .crashed := by
  unfold verifyToken
  generalize Token.verify ⟨secret⟩ (extractToken text) = verified
  cases verified with
  | error e =>
      dsimp only
      exact Completion.failed_ne_crashed
  | ok c =>
      dsimp only
      exact ExitCode.noConfusion

theorem rejectChallenge_ne_crashed {challengeId : String} :
    ¬(rejectChallenge w a challengeId quiet).exitCode = .crashed := by
  unfold rejectChallenge
  cases connect w a with
  | error p =>
      dsimp only
      exact Completion.failed_ne_crashed
  | ok client =>
      dsimp only
      rcases client.reject challengeId {} with ⟨_ | _, log⟩
      · exact Completion.failed_ne_crashed
      · exact ExitCode.noConfusion

theorem watch_ne_crashed {o : DisplayOptions} {issued : IssuedChallenge} {c : Ceremony.Challenge} :
    ¬(watch w client o json quiet issued c log).exitCode = .crashed := by
  rw [watch]
  split
  · exact Completion.ofOutcome_ne_crashed
  · exact Completion.failed_ne_crashed

end Completions

/-- The seconds that a request may take. -/
def requestSeconds (env : Environment) : Nat :=
  ((env.lookup "TANDEM_RP_TIMEOUT_SECS").bind (natBelow? (2 ^ 64))).getD 10

/-- How often a request may be sent again. -/
def retries (env : Environment) : Nat :=
  ((env.lookup "TANDEM_RP_MAX_RETRIES").bind (natBelow? (2 ^ 32))).getD 3

/-- The numbers in the configuration of a client are those of the environment. -/
theorem patience_of_connect {w : World} {a : Access} {client : Client}
    (h : connect w a = .ok client) :
    client.config.patience = requestSeconds w.environment * 1000 * retries w.environment := by
  simp only [connect, Except.bind_eq_ok, Except.mapError_eq_ok, Except.pure_eq_ok,
    Except.ok.injEq] at h
  obtain ⟨config, hConfig, rfl⟩ := h
  simp only [Config.ofEnvironment, Except.bind_eq_ok, Except.pure_eq_ok, Except.ok.injEq] at hConfig
  obtain ⟨baseUrl, -, rfl⟩ := hConfig
  have hTimeout : (((w.environment.lookup "TANDEM_RP_TIMEOUT_SECS").bind (natBelow? (2 ^ 64))).map
      (· * 1000)).getD 10000 = requestSeconds w.environment * 1000 := by
    rw [requestSeconds]
    cases (w.environment.lookup "TANDEM_RP_TIMEOUT_SECS").bind (natBelow? (2 ^ 64)) <;> rfl
  simp only [Config.patience, hTimeout]
  rfl

/-- Whether a client is stopped when it is about to read from a path: the path can be asked for, but
the time in which the request may be sent again is too long to be counted. -/
structure Stalls (w : World) (client : Client) (path : String) : Prop where
  served : ∃ u, client.config.baseUrl.resolve path = .ok u
  uncountable : 2 ^ 64 ≤ requestSeconds w.environment * retries w.environment

/-- A command gets stuck over a resource exactly if its requests stall. -/
theorem cannotRead_iff {w : World} {a : Access} {client : Client} (h : connect w a = .ok client)
    (path : String) : cannotRead client path = true ↔ Stalls w client path := by
  have hServed : (client.config.baseUrl.resolve path).toOption.isSome = true ↔
      ∃ u, client.config.baseUrl.resolve path = .ok u := by
    cases client.config.baseUrl.resolve path <;> simp [Except.toOption]
  have hPatience : client.config.isCountable = false ↔
      2 ^ 64 ≤ requestSeconds w.environment * retries w.environment := by
    rw [Config.isCountable, patience_of_connect h, countableSeconds, decide_eq_false_iff_not,
      Nat.mul_right_comm]
    omega
  rw [cannotRead, Bool.and_eq_true, Bool.not_eq_true', hPatience, hServed]
  exact ⟨fun ⟨hLong, hUrl⟩ => ⟨hUrl, hLong⟩, fun ⟨hUrl, hLong⟩ => ⟨hLong, hUrl⟩⟩

/-- The turns of the collection that options ask for. -/
def CollectOptions.turns (o : CollectOptions) (client : Client) : List Collection.Turn :=
  o.collection.run (client.source {}) (o.collection.turnLimit.getD 0) 0 0

/-- The ways in which a command comes upon a number that is beyond what it can work with. -/
inductive Command.Overreaches (w : World) (client : Client) : Command → Prop where
  /-- There is no time between two requests. -/
  | ticks {a : Access} {o : CollectOptions} {json : Bool} (none : o.interval = 0) :
      Overreaches w client (.collect a o json)
  /-- The clock stops before the first request is due, or before the time is up. -/
  | clock {a : Access} {o : CollectOptions} {json : Bool}
      (stops : clockEnd ≤ w.uptime + o.interval ∨ clockEnd ≤ w.uptime + o.maxSeconds * 1000) :
      Overreaches w client (.collect a o json)
  /-- A request for the outcome is sent. -/
  | collecting {a : Access} {o : CollectOptions} {json : Bool}
      (asks : ∃ t ∈ o.turns client, t.request.isSome)
      (stalls : Stalls w client Client.collectPath) :
      Overreaches w client (.collect a o json)
  | showing {a : Access} {challengeId : String}
      (stalls : Stalls w client (Client.challengePath challengeId)) :
      Overreaches w client (.showChallenge a challengeId)
  /-- The relying party has issued the challenge that is to be displayed. -/
  | displaying {a : Access} {o : DisplayOptions} {json : Bool} {issued : IssuedChallenge} {log : Log}
      (valid : o.request.validate = .ok ()) (issue : client.issue o.request {} = (.ok issued, log))
      (stalls : Stalls w client (Client.challengePath issued.challengeId)) :
      Overreaches w client (.display a o json)

/-- How a command reaches the relying party, if it does. -/
def Command.access? : Command → Option Access
  | .display a _ _ | .collect a _ _ | .showChallenge a _ | .rejectChallenge a _ => some a
  | .issueToken .. | .verifyToken .. => none

variable {w : World} {a : Access} {client : Client}

/-- Collecting asks at least once exactly if the first tick comes before the time is up. -/
theorem CollectOptions.asks_iff {o : CollectOptions} (client : Client) :
    (∃ t ∈ o.turns client, t.request.isSome) ↔ o.interval < o.maxSeconds * 1000 :=
  Collection.exists_request_iff rfl rfl rfl _

/-- The check that comes before collecting is whether the command overreaches. -/
theorem CollectOptions.crashes_iff {o : CollectOptions} {json : Bool}
    (h : connect w a = .ok client) :
    o.crashes w client = true ↔ (Command.collect a o json).Overreaches w client := by
  have hTicks : o.collection.isStuck = true ↔ o.interval = 0 := by
    simp [Collection.isStuck, collection]
  simp only [crashes, Bool.or_eq_true, Bool.and_eq_true, hTicks, World.cannotTell,
    decide_eq_true_eq, cannotRead_iff h, ← asks_iff client]
  constructor
  · rintro (((hNone | hTick) | hDeadline) | ⟨hAsks, hStalls⟩)
    · exact .ticks hNone
    · exact .clock (.inl hTick)
    · exact .clock (.inr hDeadline)
    · exact .collecting hAsks hStalls
  · rintro (hNone | hStops | ⟨hAsks, hStalls⟩)
    · exact .inl (.inl (.inl hNone))
    · exact hStops.elim (fun hTick => .inl (.inl (.inr hTick))) fun hDeadline => .inl (.inr hDeadline)
    · exact .inr ⟨hAsks, hStalls⟩

/-- Collecting crashes exactly if it overreaches. -/
theorem collect_crashed_iff (o : CollectOptions) (json quiet : Bool)
    (h : connect w a = .ok client) :
    (collect w a o json quiet).exitCode = .crashed ↔
      (Command.collect a o json).Overreaches w client := by
  rw [← CollectOptions.crashes_iff h, collect, h]
  dsimp only
  by_cases hCrashes : o.crashes w client = true
  · rw [if_pos hCrashes]
    exact iff_of_true rfl hCrashes
  · rw [if_neg hCrashes]
    exact iff_of_false Completion.ofOutcome_ne_crashed hCrashes

/-- Showing a challenge does as well. -/
theorem showChallenge_crashed_iff (challengeId : String) (quiet : Bool)
    (h : connect w a = .ok client) :
    (showChallenge w a challengeId quiet).exitCode = .crashed ↔
      (Command.showChallenge a challengeId).Overreaches w client := by
  have hStalls : (Command.showChallenge a challengeId).Overreaches w client ↔
      cannotRead client (Client.challengePath challengeId) = true := by
    rw [cannotRead_iff h]
    exact ⟨fun (.showing stalls) => stalls, .showing⟩
  rw [hStalls, showChallenge, h]
  dsimp only
  by_cases hCannot : cannotRead client (Client.challengePath challengeId) = true
  · rw [if_pos hCannot]
    exact iff_of_true rfl hCannot
  · rw [if_neg hCannot]
    refine iff_of_false ?_ hCannot
    split
    · exact Completion.failed_ne_crashed
    · exact ExitCode.noConfusion

/-- So does displaying one. -/
theorem display_crashed_iff (o : DisplayOptions) (json quiet : Bool)
    (h : connect w a = .ok client) :
    (display w a o json quiet).exitCode = .crashed ↔
      (Command.display a o json).Overreaches w client := by
  rw [display, h]
  dsimp only
  cases hValid : o.request.validate with
  | error f =>
      refine iff_of_false Completion.failed_ne_crashed ?_
      rintro (_ | _ | _ | _ | ⟨valid, _, _⟩)
      cases hValid.symm.trans valid
  | ok u =>
      dsimp only
      rcases hIssue : client.issue o.request {} with ⟨f | issued, log⟩
      · refine iff_of_false Completion.failed_ne_crashed ?_
        rintro (_ | _ | _ | _ | ⟨_, issue, _⟩)
        cases hIssue.symm.trans issue
      · dsimp only
        split_ifs with hCannot
        · exact iff_of_true rfl (.displaying hValid hIssue ((cannotRead_iff h _).mp hCannot))
        · refine iff_of_false ?_ ?_
          · split
            · exact Completion.failed_ne_crashed
            · exact watch_ne_crashed
          · rintro (_ | _ | _ | _ | ⟨_, issue, stalls⟩)
            cases hIssue.symm.trans issue
            exact hCannot ((cannotRead_iff h _).mpr stalls)

/-- A command that cannot even tell where the relying party is ends with a documented code. -/
theorem run_ne_crashed_of_error {i : Invocation} {p : Problem} (hAccess : i.command.access? = some a)
    (h : connect w a = .error p) : (i.run w).exitCode ≠ .crashed := by
  obtain ⟨command, quiet⟩ := i
  cases command with
  | issueToken | verifyToken => cases hAccess
  | display | collect | showChallenge | rejectChallenge =>
      cases hAccess
      simp only [Invocation.run, display, collect, showChallenge, rejectChallenge, h]
      exact p.exitCode_ne_crashed

/-- Of all commands, just those crash that connect to a relying party and then overreach. -/
theorem Invocation.crashed_iff (w : World) (i : Invocation) :
    (i.run w).exitCode = .crashed ↔
      ∃ a client, i.command.access? = some a ∧ connect w a = .ok client ∧
        i.command.Overreaches w client := by
  cases hAccess : i.command.access? with
  | none =>
      refine iff_of_false ?_ (by simp)
      obtain ⟨command, quiet⟩ := i
      cases command with
      | issueToken => exact nofun
      | verifyToken token secret json =>
          show ¬(verifyToken token secret json quiet).exitCode = .crashed
          exact verifyToken_ne_crashed
      | display | collect | showChallenge | rejectChallenge => cases hAccess
  | some a =>
      cases hConnect : connect w a with
      | error p =>
          refine iff_of_false (run_ne_crashed_of_error hAccess hConnect) ?_
          rintro ⟨a', client, hSame, hClient, -⟩
          cases hSame
          cases hConnect.symm.trans hClient
      | ok client =>
          have hOne : (i.run w).exitCode = .crashed ↔ i.command.Overreaches w client := by
            obtain ⟨command, quiet⟩ := i
            cases command with
            | issueToken | verifyToken => cases hAccess
            | display a' o json => cases hAccess; exact display_crashed_iff o json quiet hConnect
            | collect a' o json => cases hAccess; exact collect_crashed_iff o json quiet hConnect
            | showChallenge a' challengeId =>
                cases hAccess
                exact showChallenge_crashed_iff challengeId quiet hConnect
            | rejectChallenge a' challengeId =>
                exact iff_of_false rejectChallenge_ne_crashed nofun
          rw [hOne]
          constructor
          · exact fun hOverreaches => ⟨a, client, rfl, hConnect, hOverreaches⟩
          · rintro ⟨a', client', hSame, hClient, hOverreaches⟩
            cases hSame
            cases hConnect.symm.trans hClient
            exact hOverreaches

/-- Whatever is asked of the program, and whatever the relying party and the relay do, it ends with a
documented exit code unless the command comes upon a number that is beyond what it can work with;
then it ends with `101`. -/
theorem exitCode_documented_iff (w : World) (words : List String) :
    let number := (runWords w words).exitCode.number
    (number ∈ documentedCodes ↔
      ¬∃ i a client, Invocation.ofWords words = .ok i ∧ i.command.access? = some a ∧
        connect w a = .ok client ∧ i.command.Overreaches w client) ∧
      (number ∉ documentedCodes → number = 101) := by
  intro number
  have hCrashed : (runWords w words).exitCode = .crashed ↔
      ∃ i a client, Invocation.ofWords words = .ok i ∧ i.command.access? = some a ∧
        connect w a = .ok client ∧ i.command.Overreaches w client := by
    rw [runWords]
    cases hWords : Invocation.ofWords words with
    | error s => exact iff_of_false (by cases s <;> exact ExitCode.noConfusion) (by simp)
    | ok i =>
        dsimp only
        rw [i.crashed_iff w]
        constructor
        · rintro ⟨a, client, hAll⟩
          exact ⟨i, a, client, rfl, hAll⟩
        · rintro ⟨i', a, client, hSame, hAll⟩
          cases hSame
          exact ⟨a, client, hAll⟩
  constructor
  · rw [ExitCode.number_mem_documentedCodes, ne_eq, hCrashed]
  · intro hOther
    rw [ExitCode.number_mem_documentedCodes, not_not] at hOther
    show (runWords w words).exitCode.number = 101
    rw [hOther]
    rfl

/-- Nothing keeps a user from asking for requests without time between them. -/
theorem crashes_without_interval :
    let w : World :=
      { environment := [], network := .unreachable, dial := fun _ => .error "Network is unreachable"
        now := ⟨0, 0⟩ }
    let words := ["collect", "c1", "--rp", "http://127.0.0.1:1", "--interval-ms", "0"]
    (runWords w words).exitCode.number ∉ documentedCodes := by
  decide +kernel

end RemoteSigning.CommandLine
