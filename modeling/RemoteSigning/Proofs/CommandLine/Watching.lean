import RemoteSigning.Proofs.CommandLine.Notices
import RemoteSigning.Proofs.RelyingParty.Requests

/-!
# Watching a displayed challenge

Links, outcomes and the relay take turns in any order. Watching heeds one notice after another and
ends with the first terminal outcome or the first credential that cannot be handed over. What it has
said and posted by then can be told from the notices that it has heeded (`Kept`), and once the relay
is over, nothing that arrives from it makes a difference.
-/

namespace RemoteSigning.CommandLine

open Session Ceremony RelyingParty

/-- Hands a credential to the relying party. -/
def Watched.post (d : Watched) (c : Credential) (log : Log) : Except Failure Redirect × Log :=
  d.client.submit d.challengeId c.encode log

/-- What the client has done after handing over credentials. -/
def Watched.logAfter (d : Watched) (log : Log) (cs : List Credential) : Log :=
  cs.foldl (fun log c => (d.post c log).2) log

theorem Watched.logAfter_concat (d : Watched) (log : Log) (cs : List Credential) (c : Credential) :
    d.logAfter log (cs ++ [c]) = (d.post c (d.logAfter log cs)).2 :=
  List.foldl_append

/-- Whether watching ends with a notice when the client has done what `log` tells. -/
def Notice.Ends (d : Watched) (log : Log) : Notice → Prop
  | .outcome o => o.isTerminal
  | .effect (.credentialReceived c) => ∃ f, (d.post c log).1 = .error f
  | _ => False

/-- Only for a credential does it matter what has been sent before. -/
theorem Notice.ends_congr {d : Watched} {log log' : Log} {n : Notice} (h : n.credential? = none) :
    n.Ends d log ↔ n.Ends d log' := by
  cases n with
  | outcome o | lost f => exact Iff.rfl
  | effect e =>
      cases e with
      | credentialReceived c => cases h
      | _ => exact Iff.rfl

/-- A scan does not end a command. -/
theorem Notice.not_ends_of_isScan {d : Watched} {log : Log} {n : Notice} (h : n.isScan) :
    ¬n.Ends d log := by
  cases n with
  | lost f => exact id
  | outcome o => cases o <;> simp_all [isScan, Ends, Outcome.isTerminal]
  | effect e => cases e <;> simp_all [isScan, Ends]

namespace Watch

/-- Why the command fails when a credential cannot be handed over. -/
def notForwarded (f : Failure) : Problem :=
  .failure (some "Failed to forward relayed credential") f

/-- How far things are, however the course goes on. -/
def Course.watch : Course → Watch
  | .goesOn w | .ends _ w | .fails _ w => w

/-- What is done about a notice once the session with the relay is up to date. -/
def heed (d : Watched) (w : Watch) : Notice → Course
  | .outcome o => w.handleOutcome d o
  | .effect e => if (Notice.effect e).endsRelay then .goesOn w else w.handleEffect d e
  | .lost _ => .goesOn w

/-- Handling what happens is heeding what it is heard as. -/
theorem handle_of_heard {d : Watched} {w : Watch} {h : Happening} {n : Notice}
    (hHeard : (hear w.session h).1 = some n) :
    w.handle d h = { w with session := (hear w.session h).2 }.heed d n := by
  cases h with
  | published u | displayEnded => cases hHeard
  | polled o => cases hHeard; rfl
  | arrived m =>
      rw [handle]
      cases hSession : w.session with
      | none => rw [hSession] at hHeard; cases hHeard
      | some s =>
          rw [hSession] at hHeard
          have hCases := heard_hear s m
          rw [hHeard] at hCases
          generalize (hear (some s) (.arrived m)).2 = relay at hCases ⊢
          cases hCases with
          | lost received => simp only [handleMessage, received]; rfl
          | effect received =>
              simp only [handleMessage, received]
              rw [heed]
              rename_i e s'
              cases e <;> rfl

/-- No link is the line about a scan. -/
theorem text_ne_scannedLine (u : Url) : u.text ≠ scannedLine := by
  intro h
  have hColon : ':' ∈ u.text.toList := by simp [Url.text]
  rw [h] at hColon
  revert hColon
  decide

/-- What is printed of a line. -/
def said (d : Watched) (line : String) : List String := if d.quiet then [] else [line]

theorem say_eq (d : Watched) (w : Watch) (line : String) :
    w.say d line = { w with lines := w.lines ++ said d line } := by
  rw [say, said]
  split
  · rw [List.append_nil]
  · rfl

/-- No other line says that the code was scanned. -/
theorem notMem_said (d : Watched) {line : String} (h : line ≠ scannedLine) :
    scannedLine ∉ said d line := by
  rw [said]
  split
  · exact List.not_mem_nil
  · simpa using h.symm

/-- What gives no notice changes no more than what is displayed. -/
theorem handle_of_unheard (d : Watched) {w : Watch} {h : Happening}
    (hHeard : (hear w.session h).1 = none) :
    ∃ shown rotating, scannedLine ∉ shown ∧ w.handle d h = .goesOn { w with
      session := (hear w.session h).2, rotating, lines := w.lines ++ shown } := by
  cases h with
  | polled o => cases hHeard
  | displayEnded => exact ⟨[], false, List.not_mem_nil, by rw [List.append_nil]; rfl⟩
  | published u =>
      cases hRotating : w.rotating with
      | false =>
          refine ⟨[], false, List.not_mem_nil, ?_⟩
          rw [handle, hRotating, if_neg Bool.false_ne_true, List.append_nil, ← hRotating]
          rfl
      | true =>
          refine ⟨said d u.text, true, notMem_said d (text_ne_scannedLine u), ?_⟩
          rw [handle, hRotating, if_pos rfl, say_eq, ← hRotating]
          rfl
  | arrived m =>
      refine ⟨[], w.rotating, List.not_mem_nil, ?_⟩
      rw [List.append_nil, handle]
      cases hSession : w.session with
      | none =>
          show Course.goesOn w = Course.goesOn { w with session := none }
          rw [← hSession]
      | some s =>
          rw [hSession] at hHeard
          have hCases := heard_hear s m
          rw [hHeard] at hCases
          generalize (hear (some s) (.arrived m)).2 = relay at hCases ⊢
          cases hCases with
          | nothing received => simp only [handleMessage, received]

/-- All that heeding a notice can do. -/
inductive Heeded (d : Watched) (w : Watch) : Notice → Course → Prop where
  | scan {n : Notice} (isScan : n.isScan) : Heeded d w n (.goesOn (w.announceScan d))
  /-- Nothing comes of a notice but, perhaps, another line. -/
  | noted {n : Notice} (noScan : n.isScan = false) (noCredential : n.credential? = none)
      (goesOn : ¬n.Ends d w.log) (shown : List String) (other : scannedLine ∉ shown) :
      Heeded d w n (.goesOn { w with lines := w.lines ++ shown })
  | posted {c : Credential} {r : Redirect} {log : Log} (accepted : d.post c w.log = (.ok r, log))
      (shown : List String) (other : scannedLine ∉ shown) :
      Heeded d w (.effect (.credentialReceived c))
        (.goesOn { w with lines := w.lines ++ shown, log })
  | ended {o : Outcome} (isTerminal : o.isTerminal) : Heeded d w (.outcome o) (.ends o w)
  | refused {c : Credential} {f : Failure} {log : Log}
      (refused : d.post c w.log = (.error f, log)) :
      Heeded d w (.effect (.credentialReceived c))
        (.fails (notForwarded f) { w with log })

theorem heeded_forward (d : Watched) (w : Watch) (c : Credential) :
    Heeded d w (.effect (.credentialReceived c)) (w.forward d c) := by
  rw [forward]
  rcases hPost : d.client.submit d.challengeId c.encode w.log with ⟨f | r, log⟩
  · exact .refused hPost
  · dsimp only
    rw [say_eq]
    exact .posted hPost _ (notMem_said d (by decide))

/-- `Heeded` is all that heeding a notice can do. -/
theorem heeded_heed (d : Watched) (w : Watch) (n : Notice) : Heeded d w n (w.heed d n) := by
  have hNoted {n : Notice} (noScan : n.isScan = false) (noCredential : n.credential? = none)
      (goesOn : ¬n.Ends d w.log) : Heeded d w n (.goesOn w) := by
    have hHeeded := Heeded.noted noScan noCredential goesOn [] List.not_mem_nil
    rwa [List.append_nil] at hHeeded
  cases n with
  | lost f => exact hNoted rfl rfl id
  | outcome o =>
      rw [heed, handleOutcome]
      cases o with
      | viewed => exact .scan rfl
      | pending => exact hNoted rfl rfl Bool.false_ne_true
      | signed _ | rejected | error _ _ => exact .ended rfl
  | effect e =>
      rw [heed]
      cases e with
      | peerJoined => exact .scan rfl
      | peerLeft =>
          show Heeded d w _ (.goesOn (w.say d _))
          rw [say_eq]
          exact .noted rfl rfl id _ (notMem_said d (by decide))
      | busy | closed | failed => exact hNoted rfl rfl id
      | credentialReceived c => exact heeded_forward d w c

/-- What shows of the notices that were heeded, from a start when the client had done what `log`
tells. -/
structure Kept (d : Watched) (log : Log) (seen : List Notice) (w : Watch) : Prop where
  scanned : w.scanned = seen.any Notice.isScan
  lines : w.lines.count scannedLine = if w.scanned && !d.quiet then 1 else 0
  log : w.log = d.logAfter log (credentials seen)

variable {d : Watched} {log : Log} {seen : List Notice} {w : Watch} {n : Notice} {course : Course}

/-- Other lines make no difference to what is kept. -/
theorem Kept.shown (h : Kept d log seen w) {shown : List String} (hOther : scannedLine ∉ shown) :
    Kept d log seen { w with lines := w.lines ++ shown } := by
  refine ⟨h.scanned, ?_, h.log⟩
  rw [List.count_append, List.count_eq_zero.mpr hOther]
  exact h.lines

/-- A notice that is neither of a scan nor of a credential is not kept track of. -/
theorem Kept.noted (h : Kept d log seen w) (noScan : n.isScan = false)
    (noCredential : n.credential? = none) : Kept d log (seen ++ [n]) w := by
  constructor
  · rw [h.scanned, List.any_append, List.any_cons, noScan]
    simp
  · exact h.lines
  · rw [h.log, credentials_append, credentials_singleton, noCredential]
    simp

/-- The first scan is told and later ones are not. -/
theorem Kept.scan (h : Kept d log seen w) (isScan : n.isScan) :
    Kept d log (seen ++ [n]) (w.announceScan d) := by
  have hLog : w.log = d.logAfter log (credentials (seen ++ [n])) := by
    rw [h.log, credentials_append, credentials_singleton, n.credential?_of_isScan isScan]
    simp
  have hScanned : (seen ++ [n]).any Notice.isScan = true := by simp [isScan]
  rw [announceScan]
  split
  · rename_i hBefore
    exact ⟨by rw [hScanned, hBefore], h.lines, hLog⟩
  · rename_i hBefore
    rw [say_eq, said]
    refine ⟨hScanned.symm, ?_, hLog⟩
    have hNone : w.lines.count scannedLine = 0 := by
      simpa [hBefore] using h.lines
    cases hQuiet : d.quiet <;> simp [hNone]

/-- Forwarding a credential sends what is counted for it. -/
theorem Kept.posted (h : Kept d log seen w) (c : Credential) :
    Kept d log (seen ++ [.effect (.credentialReceived c)])
      { w with log := (d.post c w.log).2 } := by
  constructor
  · simp [h.scanned, Notice.isScan]
  · exact h.lines
  · rw [credentials_append, h.log]
    exact (d.logAfter_concat log (credentials seen) c).symm

/-- Whatever comes of a notice, it is kept track of. -/
theorem Kept.heeded (h : Kept d log seen w) (hHeeded : Heeded d w n course) :
    Kept d log (seen ++ [n]) course.watch := by
  cases hHeeded with
  | scan isScan => exact h.scan isScan
  | noted noScan noCredential _ shown other => exact (h.noted noScan noCredential).shown other
  | ended isTerminal => exact h.noted (Notice.isScan_of_isTerminal isTerminal) rfl
  | @posted c r after accepted shown other =>
      have hPosted := h.posted c
      rw [accepted] at hPosted
      exact hPosted.shown other
  | @refused c f after refused =>
      have hPosted := h.posted c
      rw [refused] at hPosted
      exact hPosted

/-- How watching ends after heeding some notices, with others left. No earlier one ends it. -/
inductive Ending (d : Watched) (log : Log) :
    List Notice → List Notice → Except Problem Outcome → Prop where
  | outcome {before rest : List Notice} {o : Outcome} (goesOn : ∀ n ∈ before, ¬n.Ends d log)
      (isTerminal : o.isTerminal) : Ending d log (before ++ [.outcome o]) rest (.ok o)
  | refused {before rest : List Notice} {c : Credential} {f : Failure}
      (goesOn : ∀ n ∈ before, ¬n.Ends d log) (refused : (d.post c log).1 = .error f) :
      Ending d log (before ++ [.effect (.credentialReceived c)]) rest
        (.error (notForwarded f))
  /-- All happenings were handled. -/
  | stopped {seen : List Notice} (goesOn : ∀ n ∈ seen, ¬n.Ends d log) :
      Ending d log seen [] (.ok stopped)

theorem announceScan_session (d : Watched) (w : Watch) :
    (w.announceScan d).session = w.session := by
  rw [announceScan]
  split
  · rfl
  · rw [say_eq]

/-- After a notice that does not end it, watching goes on with the same session. -/
theorem Heeded.goesOn_or (h : Heeded d w n course) :
    (∃ w', course = .goesOn w' ∧ w'.session = w.session ∧ ¬n.Ends d w.log) ∨
    (∃ o, n = .outcome o ∧ o.isTerminal ∧ course = .ends o w) ∨
    (∃ c f after, n = .effect (.credentialReceived c) ∧ (d.post c w.log).1 = .error f ∧
      course = .fails (notForwarded f) { w with log := after }) := by
  cases h with
  | scan isScan =>
      exact .inl ⟨_, rfl, announceScan_session d w, Notice.not_ends_of_isScan isScan⟩
  | noted _ _ goesOn shown => exact .inl ⟨_, rfl, rfl, goesOn⟩
  | posted accepted shown =>
      refine .inl ⟨_, rfl, rfl, ?_⟩
      rintro ⟨f, hRefused⟩
      rw [accepted] at hRefused
      cases hRefused
  | ended isTerminal => exact .inr (.inl ⟨_, rfl, isTerminal, rfl⟩)
  | refused refused =>
      exact .inr (.inr ⟨_, _, _, rfl, congrArg Prod.fst refused, rfl⟩)

/-- While there is no second credential, the first is handed over with the log of the start. -/
theorem Kept.log_eq (h : Kept d log seen w) {rest : List Notice} {c : Credential}
    (hSingle : (credentials (seen ++ .effect (.credentialReceived c) :: rest)).length ≤ 1) :
    w.log = log := by
  have hSeen : credentials seen = [] := by
    rw [List.append_cons, credentials_append, credentials_append, credentials_singleton] at hSingle
    simp only [Notice.credential?, Option.toList_some, List.length_append,
      List.length_singleton] at hSingle
    exact List.length_eq_zero_iff.mp (by omega)
  rw [h.log, hSeen]
  rfl

/-- With one credential at most, whether it is the last notice can be told from the log at the
start. -/
theorem Kept.ends_iff (h : Kept d log seen w) {rest : List Notice}
    (hSingle : (credentials (seen ++ n :: rest)).length ≤ 1) :
    n.Ends d w.log ↔ n.Ends d log := by
  cases hCredential : n.credential? with
  | none => exact Notice.ends_congr hCredential
  | some c =>
      obtain rfl := Notice.credential?_eq_some.mp hCredential
      rw [h.log_eq hSingle]

/-- Handling what gives a notice. -/
theorem Kept.handle (hKept : Kept d log seen w) {h : Happening} {rest : List Notice}
    (hHeard : (hear w.session h).1 = some n)
    (hSingle : (credentials (seen ++ n :: rest)).length ≤ 1) :
    Kept d log (seen ++ [n]) (w.handle d h).watch ∧
    ((∃ w', w.handle d h = .goesOn w' ∧ w'.session = (hear w.session h).2 ∧ ¬n.Ends d log) ∨
    (∃ o w', n = .outcome o ∧ o.isTerminal ∧ w.handle d h = .ends o w') ∨
    (∃ c f w', n = .effect (.credentialReceived c) ∧ (d.post c log).1 = .error f ∧
      w.handle d h = .fails (notForwarded f) w')) := by
  have hUpdated : Kept d log seen { w with session := (hear w.session h).2 } :=
    ⟨hKept.scanned, hKept.lines, hKept.log⟩
  have hHeeded := heeded_heed d { w with session := (hear w.session h).2 } n
  rw [handle_of_heard hHeard]
  refine ⟨hUpdated.heeded hHeeded, ?_⟩
  rcases hHeeded.goesOn_or with ⟨w', hCourse, hSession, hCalm⟩ | ⟨o, hOutcome, hTerminal, hCourse⟩ |
    ⟨c, f, after, rfl, hRefused, hCourse⟩
  · exact .inl ⟨w', hCourse, hSession, fun hEnds => hCalm ((hUpdated.ends_iff hSingle).mpr hEnds)⟩
  · exact .inr (.inl ⟨o, _, hOutcome, hTerminal, hCourse⟩)
  · rw [hUpdated.log_eq hSingle] at hRefused
    exact .inr (.inr ⟨c, f, _, rfl, hRefused, hCourse⟩)

/-- Watching heeds the first notices up to one that ends it, and keeps track of them. -/
theorem run_ending (happenings : List Happening) (hKept : Kept d log seen w)
    (hGoesOn : ∀ n ∈ seen, ¬n.Ends d log)
    (hSingle : (credentials (seen ++ notices w.session happenings)).length ≤ 1) :
    ∃ heeded rest, notices w.session happenings = heeded ++ rest ∧
      Ending d log (seen ++ heeded) rest (run d w happenings).1 ∧
      Kept d log (seen ++ heeded) (run d w happenings).2 := by
  induction happenings generalizing w seen with
  | nil =>
      refine ⟨[], [], rfl, ?_, ?_⟩
      · rw [List.append_nil]
        exact .stopped hGoesOn
      · rw [List.append_nil]
        exact hKept
  | cons h happenings ih =>
      rw [notices] at hSingle ⊢
      rw [run]
      cases hHeard : (hear w.session h).1 with
      | none =>
          obtain ⟨shown, rotating, hOther, hHandled⟩ := handle_of_unheard d hHeard
          rw [hHandled]
          rw [hHeard] at hSingle
          have hShown := hKept.shown hOther
          have hNext : Kept d log seen { w with
              session := (hear w.session h).2, rotating, lines := w.lines ++ shown } :=
            ⟨hShown.scanned, hShown.lines, hShown.log⟩
          exact ih hNext hGoesOn hSingle
      | some n =>
          rw [hHeard] at hSingle
          obtain ⟨hNext, hCases⟩ := hKept.handle hHeard hSingle
          rcases hCases with ⟨w', hCourse, hSession, hCalm⟩ | ⟨o, w', rfl, hTerminal, hCourse⟩ |
            ⟨c, f, w', rfl, hRefused, hCourse⟩
          · rw [hCourse] at hNext ⊢
            have hStillOn : ∀ m ∈ seen ++ [n], ¬m.Ends d log := by
              simp only [List.mem_append, List.mem_singleton]
              rintro m (hSeen | rfl)
              · exact hGoesOn m hSeen
              · exact hCalm
            have hNow : Kept d log (seen ++ [n]) w' := hNext
            rw [Option.toList_some, List.singleton_append, List.append_cons, ← hSession] at hSingle
            obtain ⟨heeded, rest, hAll, hEnding, hLast⟩ := ih hNow hStillOn hSingle
            rw [hSession] at hAll
            rw [← List.append_cons] at hEnding hLast
            exact ⟨n :: heeded, rest, congrArg (n :: ·) hAll, hEnding, hLast⟩
          · rw [hCourse] at hNext ⊢
            exact ⟨[.outcome o], _, rfl, .outcome hGoesOn hTerminal, hNext⟩
          · rw [hCourse] at hNext ⊢
            exact ⟨[.effect (.credentialReceived c)], _, rfl, .refused hGoesOn hRefused, hNext⟩

/-- A second sign of the scan is not printed, and what follows the end is not handled. -/
example (client : RelyingParty.Client) :
    let d : Watched := { client, challengeId := "c", quiet := false }
    let (result, w) := run d { session := none, log := {} }
      [.polled .pending, .polled .viewed, .polled .viewed, .polled .rejected, .polled .pending]
    result = .ok .rejected ∧ w.lines = [scannedLine] :=
  ⟨rfl, rfl⟩

/-- A watch that goes on listens to the relay as the happening leaves it. -/
theorem handle_session {h : Happening} {w' : Watch} (hCourse : w.handle d h = .goesOn w') :
    w'.session = (hear w.session h).2 := by
  cases hHeard : (hear w.session h).1 with
  | none =>
      obtain ⟨shown, rotating, -, hHandled⟩ := handle_of_unheard d hHeard
      rw [hHandled] at hCourse
      cases hCourse
      rfl
  | some n =>
      rw [handle_of_heard hHeard] at hCourse
      have hHeeded := heeded_heed d { w with session := (hear w.session h).2 } n
      rcases hHeeded.goesOn_or with ⟨_, hGoesOn, hSession, -⟩ | ⟨o, -, -, hEnds⟩ |
        ⟨c, f, after, -, -, hFails⟩
      · rw [hGoesOn] at hCourse
        cases hCourse
        exact hSession
      · rw [hEnds] at hCourse
        cases hCourse
      · rw [hFails] at hCourse
        cases hCourse

/-- Nothing that arrives makes a difference if nothing is taken from the relay. -/
theorem run_filter_of_none (hNone : w.session = none) (happenings : List Happening) :
    run d w (happenings.filter (!·.isArrival)) = run d w happenings := by
  induction happenings generalizing w with
  | nil => rfl
  | cons h rest ih =>
      cases hArrival : h.isArrival with
      | true =>
          obtain ⟨m, rfl⟩ := h.exists_arrived hArrival
          have hIgnored : w.handle d (.arrived m) = .goesOn w := by rw [handle, hNone]
          rw [List.filter_cons_of_neg (by simp [hArrival]), ih hNone, run, hIgnored]
      | false =>
          rw [List.filter_cons_of_pos (by simp [hArrival]), run, run]
          cases hCourse : w.handle d h with
          | ends o w' | fails p w' => rfl
          | goesOn w' =>
              apply ih
              rw [handle_session hCourse, hNone, hear_none]

/-- Nor does it after the relay has ended or failed. -/
theorem run_append_filter (first later : List Happening)
    (hOver : w.session = none ∨ ∃ n ∈ notices w.session first, n.endsRelay) :
    run d w (first ++ later.filter (!·.isArrival)) = run d w (first ++ later) := by
  induction first generalizing w with
  | nil =>
      rcases hOver with hNone | ⟨n, hMem, -⟩
      · exact run_filter_of_none hNone later
      · cases hMem
  | cons h first ih =>
      rw [List.cons_append, List.cons_append, run, run]
      cases hCourse : w.handle d h with
      | ends o w' | fails p w' => rfl
      | goesOn w' =>
          apply ih
          rw [handle_session hCourse]
          rcases hOver with hNone | ⟨n, hMem, hEnds⟩
          · rw [hNone]
            exact .inl (hear_none h)
          · rw [notices, List.mem_append, Option.mem_toList] at hMem
            rcases hMem with hNow | hLater
            · exact .inl (hear_endsRelay hNow hEnds)
            · exact .inr ⟨n, hLater, hEnds⟩

end Watch

end RemoteSigning.CommandLine
