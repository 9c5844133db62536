import RemoteSigning.CommandLine.Run
import RemoteSigning.Proofs.CommandLine.Watching

/-!
# Displaying a challenge

A displayed challenge is watched after a heading and the first link were printed. Neither of them,
nor what is printed about the outcome in the end, can be taken for the line about a scan, so what
watching says of scans is all that the command says of them.
-/

namespace RemoteSigning.CommandLine

open Session Ceremony RelyingParty

namespace Watch

/-- The line about a scan can be told from others by its first letter. -/
theorem notMem_of_heads {lines : List String}
    (h : ∀ line ∈ lines, line.toList.head? ≠ some 'Q') : scannedLine ∉ lines := by
  intro hMem
  exact h scannedLine hMem (by decide)

/-- What has a label is indented. -/
theorem head?_labelled (label content : String) :
    (labelled label content).toList.head? = some ' ' := by
  simp [labelled]

/-- The heading says nothing of a scan. -/
theorem notMem_challengeLines (c : Challenge) (now : Time.Instant) :
    scannedLine ∉ challengeLines c now := by
  apply notMem_of_heads
  simp only [challengeLines, List.forall_mem_append]
  refine ⟨⟨⟨⟨?_, ?_⟩, ?_⟩, ?_⟩, ?_⟩
  · simp [head?_labelled]
  · split <;> simp [head?_labelled]
  · cases c.options.userVerification <;> simp [head?_labelled]
  · rcases c.signData with _ | ⟨text, _ | data⟩ <;> simp [head?_labelled]
  · cases c.expiresAt <;> simp [head?_labelled]

/-- Nor does what is printed about an outcome. -/
theorem notMem_outcomeLines (json quiet : Bool) (o : Outcome) :
    scannedLine ∉ outcomeLines json quiet o := by
  apply notMem_of_heads
  cases o with
  | pending | viewed | error code message => simp [outcomeLines]
  | rejected => cases quiet <;> simp [outcomeLines]
  | signed a =>
      cases json with
      | true =>
          simp [outcomeLines, SignedAssertion.toValue, Json.Value.indented,
            Json.Value.indentedChars]
      | false =>
          cases quiet with
          | true => simp [outcomeLines]
          | false =>
              cases hSigned : a.signed <;> simp [outcomeLines, signedLines, hSigned, head?_labelled]

end Watch

/-- The completion when watching ends with a result. -/
def Completion.ofResult (json quiet : Bool) (lines : List String) (log : Log) :
    Except Problem Outcome → Completion
  | .ok o => .ofOutcome json quiet lines o log
  | .error p => .failed lines p log

theorem Completion.log_ofResult (json quiet : Bool) (lines : List String) (log : Log)
    (result : Except Problem Outcome) : (ofResult json quiet lines log result).log = log := by
  cases result with
  | error p => rfl
  | ok o =>
      rw [ofResult, ofOutcome]
      cases outcomeProblem? o <;> rfl

/-- How a command ends adds nothing about a scan. -/
theorem Completion.count_ofResult (json quiet : Bool) (lines : List String) (log : Log)
    (result : Except Problem Outcome) :
    (ofResult json quiet lines log result).output.count Watch.scannedLine =
      lines.count Watch.scannedLine := by
  cases result with
  | error p => rfl
  | ok o =>
      have hOutput : (ofResult json quiet lines log (.ok o)).output =
          lines ++ outcomeLines json quiet o := by
        rw [ofResult, ofOutcome]
        cases outcomeProblem? o <;> rfl
      rw [hOutput, List.count_append,
        List.count_eq_zero.mpr (Watch.notMem_outcomeLines json quiet o), Nat.add_zero]

section Command

variable (w : World) (client : RelyingParty.Client) (o : DisplayOptions) (json quiet : Bool)
  (issued : IssuedChallenge) (c : Challenge) (log : Log)

/-- The session with the relay, if it can be joined. -/
def relaySession : Option Session :=
  let relay := o.relay.getD client.config.baseUrl
  (Session.Client.connect w.dial relay issued.challengeId c.kind).toOption.map (·.session)

/-- The session expects what the challenge is for. -/
theorem relaySession_kind : ∀ s ∈ relaySession w client o issued c, s.kind = c.kind := by
  intro s hMem
  obtain ⟨joined, hJoined, rfl⟩ := Option.map_eq_some_iff.mp hMem
  cases hConnect : Session.Client.connect w.dial (o.relay.getD client.config.baseUrl)
      issued.challengeId c.kind with
  | error f => rw [hConnect] at hJoined; cases hJoined
  | ok opened =>
      rw [hConnect] at hJoined
      obtain rfl : opened = joined := Option.some.inj hJoined
      simp only [Session.Client.connect, Except.bind_eq_ok] at hConnect
      obtain ⟨room, -, socket, -, hOpened⟩ := hConnect
      obtain rfl := Except.ok.inj hOpened
      rfl

/-- How far things are when watching starts. -/
def firstWatch : Watch :=
  let display : Token.Display :=
    { challengeId := issued.challengeId, secret := issued.secret
      baseUrl := client.config.baseUrl, issuedAt := log.now }
  let heading := if quiet then [] else
    challengeLines c w.now ++ ["", "Scan the link below on the signing device:"]
  { session := relaySession w client o issued c
    lines := heading ++ [(display.freshLink log.now).text]
    log }

/-- When watching starts, nothing has been noticed. -/
theorem kept_firstWatch (d : Watched) :
    Watch.Kept d log [] (firstWatch w client o quiet issued c log) := by
  refine ⟨rfl, List.count_eq_zero.mpr ?_, rfl⟩
  rw [firstWatch, List.mem_append, not_or]
  constructor
  · cases quiet with
    | true => exact List.not_mem_nil
    | false =>
        show Watch.scannedLine ∉ challengeLines c w.now ++ _
        rw [List.mem_append, not_or]
        exact ⟨Watch.notMem_challengeLines c w.now, by decide⟩
  · simpa using (Watch.text_ne_scannedLine _).symm

/-- Watching a challenge is running a watch over all that happens, and ending with what comes of it.
-/
theorem watch_eq :
    let d : Watched := { client, challengeId := issued.challengeId, quiet }
    let course := (firstWatch w client o quiet issued c log).run d
      (w.happenings issued.challengeId)
    watch w client o json quiet issued c log =
      .ofResult json quiet course.2.lines course.2.log course.1 := by
  intro d course
  rw [watch]
  split
  · rename_i outcome last hRun
    have hCourse : course = (.ok outcome, last) := hRun
    rw [hCourse]
    rfl
  · rename_i p last hRun
    have hCourse : course = (.error p, last) := hRun
    rw [hCourse]
    rfl

/-- Whether a display comes to watch a challenge: it has issued it, which took the client from nothing
to `before`, and then fetched it. -/
structure Watches (a : Access) (before : Log) : Prop where
  connect : connect w a = .ok client
  valid : o.request.validate = .ok ()
  issue : client.issue o.request {} = (.ok issued, before)
  canRead : cannotRead client (Client.challengePath issued.challengeId) = false
  fetch : client.fetch issued.challengeId before = (.ok c, log)

theorem Watches.display_eq {w : World} {client : RelyingParty.Client} {o : DisplayOptions}
    {issued : IssuedChallenge} {c : Challenge} {a : Access} {before log : Log}
    (h : Watches w client o issued c log a before) :
    display w a o json quiet = watch w client o json quiet issued c log := by
  simp only [display, h.connect, h.valid, h.issue, h.canRead, h.fetch, Bool.false_eq_true, if_false]

/-- Whether a display has ended before it showed a challenge: nothing was printed, and at most the
challenge was issued and fetched. -/
def EndsEarly (a : Access) (done : Completion) : Prop :=
  done.output = [] ∧
    (done.log = {} ∨ ∃ client, connect w a = .ok client ∧
      (done.log = (client.issue o.request {}).2 ∨
        ∃ issued, (client.issue o.request {}).1 = .ok issued ∧
          done.log = (client.fetch issued.challengeId (client.issue o.request {}).2).2))

omit issued c log client in
/-- A display ends early, or it comes to watch. -/
theorem display_cases (a : Access) :
    EndsEarly w o a (display w a o json quiet) ∨
      ∃ client issued c before log, Watches w client o issued c log a before := by
  rw [display]
  cases hConnect : connect w a with
  | error p => exact .inl ⟨rfl, .inl rfl⟩
  | ok client =>
      cases hValid : o.request.validate with
      | error f => exact .inl ⟨rfl, .inl rfl⟩
      | ok _ =>
          dsimp only
          rcases hIssue : client.issue o.request {} with ⟨f | issued, before⟩
          · exact .inl ⟨rfl, .inr ⟨client, hConnect, .inl (by rw [hIssue]; rfl)⟩⟩
          · dsimp only
            cases hRead : cannotRead client (Client.challengePath issued.challengeId) with
            | true => exact .inl ⟨rfl, .inr ⟨client, hConnect, .inl (by rw [hIssue]; rfl)⟩⟩
            | false =>
                rcases hFetch : client.fetch issued.challengeId before with ⟨f | c, log⟩
                · refine .inl ⟨rfl, .inr ⟨client, hConnect, .inr ⟨issued, by rw [hIssue], ?_⟩⟩⟩
                  rw [hIssue]
                  exact (congrArg Prod.snd hFetch).symm
                · exact .inr ⟨client, issued, c, before, log, hConnect, hValid, hIssue, hRead, hFetch⟩

/-- What a command posts that hands over at most one credential. -/
theorem exists_posts_logAfter (d : Watched) {cs : List Credential} (hSingle : cs.length ≤ 1) :
    ∃ posts, (d.logAfter log cs).sent = log.sent ++ posts ∧ posts.length ≤ 1 ∧
      ∀ post ∈ posts, ∃ credential ∈ cs, d.client.Posts d.challengeId credential.encode post := by
  cases cs with
  | nil => exact ⟨[], (List.append_nil _).symm, Nat.zero_le 1, by simp⟩
  | cons credential cs =>
      obtain rfl : cs = [] := List.length_eq_zero_iff.mp (by simpa using hSingle)
      obtain ⟨posts, hSent, hLength, hPosts⟩ :=
        d.client.submit_sent d.challengeId credential.encode log
      exact ⟨posts, hSent, hLength, fun post hPost => ⟨credential, by simp, hPosts post hPost⟩⟩

omit w client o json quiet issued c in
/-- What is posted was relayed, as a credential of the kind that the session expects. -/
theorem exists_posts_of_notices (d : Watched) {relay : Option Session} {kind : Kind}
    (hKind : ∀ s ∈ relay, s.kind = kind) {happenings : List Happening}
    {heeded rest : List Notice} (hAll : notices relay happenings = heeded ++ rest) :
    ∃ posts, (d.logAfter log (credentials heeded)).sent = log.sent ++ posts ∧ posts.length ≤ 1 ∧
      ∀ post ∈ posts, ∃ credential m, .effect (.credentialReceived credential) ∈ heeded ∧
        .arrived m ∈ happenings ∧ m.Relays kind credential ∧ credential.kind = kind ∧
        d.client.Posts d.challengeId credential.encode post := by
  have hSingle := length_credentials_notices_le relay happenings
  rw [hAll, credentials_append, List.length_append] at hSingle
  have hHeeded : (credentials heeded).length ≤ 1 := by omega
  obtain ⟨posts, hSent, hLength, hPosts⟩ := exists_posts_logAfter log d hHeeded
  refine ⟨posts, hSent, hLength, fun post hPost => ?_⟩
  obtain ⟨credential, hMem, hPosted⟩ := hPosts post hPost
  have hNoticed : credential ∈ credentials (notices relay happenings) := by
    rw [hAll, credentials_append]
    exact List.mem_append_left _ hMem
  obtain ⟨m, hArrived, hRelays⟩ := exists_arrived_of_mem_credentials hKind hNoticed
  exact ⟨credential, m, mem_credentials.mp hMem, hArrived, hRelays, hRelays.kind_eq, hPosted⟩

/-- What arrives from a relay that is over makes no difference to the command. -/
theorem watch_without_arrivals {first later : List Happening}
    (hHappenings : w.happenings issued.challengeId = first ++ later)
    (hOver : ∃ n ∈ notices (relaySession w client o issued c) first, n.endsRelay) :
    watch { w with happenings := fun _ => first ++ later.filter (!·.isArrival) }
      client o json quiet issued c log = watch w client o json quiet issued c log := by
  have hSame : (firstWatch w client o quiet issued c log).run
      { client, challengeId := issued.challengeId, quiet }
      (first ++ later.filter (!·.isArrival)) =
        (firstWatch w client o quiet issued c log).run
          { client, challengeId := issued.challengeId, quiet }
          (w.happenings issued.challengeId) := by
    rw [hHappenings]
    exact Watch.run_append_filter first later (.inr hOver)
  have hWithout := watch_eq { w with happenings := fun _ => first ++ later.filter (!·.isArrival) }
    client o json quiet issued c log
  have hComplete := congrArg (fun course : Except Problem Outcome × Watch =>
    Completion.ofResult json quiet course.2.lines course.2.log course.1) hSame
  exact hWithout.trans (hComplete.trans (watch_eq w client o json quiet issued c log).symm)

/-- What comes of a command that displays a challenge, whatever happens and in whatever order, and
whatever the relying party answers.

* The command heeds the first notices, up to the first outcome that is terminal or the first
  credential that is refused, and ends accordingly.
* It says once at most that the code was scanned: unless all is to be quiet, exactly if a notice
  that it heeded says so.
* It posts once at most, and then a relayed credential of the kind of the challenge, written anew,
  to the challenge that was issued.
* Once the relay has ended or failed, it makes no difference what else arrives from it.
-/
def HeedsNotices (command : World → Completion) : Prop :=
  let d : Watched := { client, challengeId := issued.challengeId, quiet }
  let relay := relaySession w client o issued c
  let happenings := w.happenings issued.challengeId
  let done := command w
  (∃ heeded rest, notices relay happenings = heeded ++ rest ∧
    (∃ result lines, Watch.Ending d log heeded rest result ∧
      done = .ofResult json quiet lines done.log result) ∧
    done.output.count Watch.scannedLine =
      (if quiet = false ∧ ∃ n ∈ heeded, n.isScan then 1 else 0) ∧
    ∃ posts, done.log.sent = log.sent ++ posts ∧ posts.length ≤ 1 ∧
      ∀ post ∈ posts, ∃ credential m,
        .effect (.credentialReceived credential) ∈ heeded ∧
        .arrived m ∈ happenings ∧ m.Relays c.kind credential ∧ credential.kind = c.kind ∧
        client.Posts issued.challengeId credential.encode post) ∧
  ∀ first later, happenings = first ++ later → (∃ n ∈ notices relay first, n.endsRelay) →
    command { w with happenings := fun _ => first ++ later.filter (!·.isArrival) } = done

/-- A challenge that was issued and fetched is watched by its notices. -/
theorem watch_heeds_notices :
    HeedsNotices w client o json quiet issued c log fun w =>
      watch w client o json quiet issued c log := by
  unfold HeedsNotices
  intro d relay happenings done
  have hSession : (firstWatch w client o quiet issued c log).session = relay := rfl
  constructor
  · generalize hCourse : (firstWatch w client o quiet issued c log).run d happenings = course
    have hDone : done = .ofResult json quiet course.2.lines course.2.log course.1 := by
      rw [← hCourse]
      exact watch_eq w client o json quiet issued c log
    have hLog : done.log = course.2.log := by rw [hDone, Completion.log_ofResult]
    obtain ⟨heeded, rest, hAll, hEnding, hKept⟩ := Watch.run_ending happenings
      (kept_firstWatch w client o quiet issued c log d) (by simp)
      (length_credentials_notices_le relay happenings)
    rw [hSession] at hAll
    rw [hCourse, List.nil_append] at hEnding hKept
    refine ⟨heeded, rest, hAll, ⟨course.1, course.2.lines, hEnding, ?_⟩, ?_, ?_⟩
    · rw [hLog]
      exact hDone
    · rw [hDone, Completion.count_ofResult, hKept.lines, hKept.scanned]
      apply if_congr _ rfl rfl
      rw [Bool.and_eq_true, List.any_eq_true, Bool.not_eq_true', and_comm]
    · rw [hLog, hKept.log]
      exact exists_posts_of_notices log d (relaySession_kind w client o issued c) hAll
  · intro first later hHappenings hOver
    exact watch_without_arrivals w client o json quiet issued c log hHappenings hOver

end Command

end RemoteSigning.CommandLine
