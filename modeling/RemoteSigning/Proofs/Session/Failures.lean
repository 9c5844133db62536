import RemoteSigning.Proofs.Session.Handles

/-!
# Failures leave no trace

A call that ends in an error leaves its session as it was, and so does a text that is JSON but no
frame. Whoever makes such calls on the way, through the session itself or through its text
interface, gets from all other calls what they would have got without them.
-/

namespace RemoteSigning.Session

open Ceremony Json

section Runs

variable {σ κ ρ : Type} (step : σ → κ → ρ × σ)

/-- What is left of a list without the positions in `out`. -/
def without {α : Type} (out : Nat → Bool) : List α → List α
  | [] => []
  | a :: rest =>
    let left := without (fun i => out (i + 1)) rest
    if out 0 then left else a :: left

/-- The state after calls. -/
def afterCalls (s : σ) (calls : List κ) : σ := calls.foldl (fun s c => (step s c).2) s

/-- What calls return. -/
def returned (s : σ) : List κ → List ρ
  | [] => []
  | c :: rest => (step s c).1 :: returned (step s c).2 rest

/-- Calls that leave the state alone, where they are made, can be left out: the others return the
same, and the state is the same in the end. -/
theorem returned_without {s : σ} {calls : List κ} {out : Nat → Bool}
    (hOut : ∀ i (h : i < calls.length), out i →
      (step (afterCalls step s (calls.take i)) calls[i]).2 = afterCalls step s (calls.take i)) :
    returned step s (without out calls) = without out (returned step s calls) ∧
      afterCalls step s (without out calls) = afterCalls step s calls := by
  induction calls generalizing s out with
  | nil => exact ⟨rfl, rfl⟩
  | cons c rest ih =>
      obtain ⟨hReturned, hAfter⟩ := @ih (step s c).2 (fun i => out (i + 1)) fun i h hDeleted =>
        hOut (i + 1) (Nat.succ_lt_succ h) hDeleted
      cases hFirst : out 0 with
      | false =>
          simp only [without, returned, hFirst, Bool.false_eq_true, if_false, hReturned]
          exact ⟨trivial, hAfter⟩
      | true =>
          have hSame : (step s c).2 = s := hOut 0 (Nat.zero_lt_succ _) hFirst
          rw [hSame] at hReturned hAfter
          simp only [without, returned, hFirst, if_true, hSame]
          refine ⟨hReturned, hAfter.trans ?_⟩
          rw [afterCalls, afterCalls, List.foldl_cons, hSame]

end Runs

theorem answers_eq_returned (s : Session) (calls : List Call) :
    s.answers calls = returned call s calls := by
  induction calls generalizing s with
  | nil => rfl
  | cons c rest ih => rw [answers_cons, returned, ih]

/-- Whether a call has failed. -/
def Answer.isError : Answer → Bool
  | .refused _ | .failed _ => true
  | _ => false

/-- Whether a call ends in an error, or hands over a text that is JSON but no frame. -/
inductive Call.IsVain (s : Session) : Call → Prop where
  | error {c : Call} (answer : (s.call c).1.isError) : IsVain s c
  | unknown {text : String} {v : Value} (frame : Frame.ofText text = .ok (.unknown v)) :
      IsVain s (.handle text)

theorem handleText_unknown {s : Session} {text : String} {v : Value}
    (h : Frame.ofText text = .ok (.unknown v)) : s.run (handleText text) = (.ok none, s) := by
  rw [run_handleText, h]
  rfl

/-- A call that fails leaves the session as it is. -/
theorem call_of_isError {s : Session} {c : Call} (h : (s.call c).1.isError) :
    (s.call c).2 = s := by
  cases c with
  | handle text =>
      rw [call] at h ⊢
      split
      · rename_i hHandled
        simp [hHandled, Answer.isError] at h
      · rename_i hHandled
        exact eq_of_handleText_error hHandled
  | route outcome =>
      rw [call] at h ⊢
      split
      · rename_i hRouted
        simp [hRouted, Answer.isError] at h
      · rename_i hRouted
        exact (eq_of_routeCeremony_error hRouted).2
  | onOpen | onClose | onTransportError => cases h

/-- So does every call that is in vain. -/
theorem Call.IsVain.leaves {s : Session} {c : Call} (h : c.IsVain s) : (s.call c).2 = s := by
  cases h with
  | error answer => exact call_of_isError answer
  | unknown frame => rw [call, handleText_unknown frame]

/-- A failure of the platform is passed on as it is. -/
theorem call_failure (s : Session) (e : CeremonyError) :
    s.call (.route (.error e)) = (.failed e, s) := rfl

/-- What a page does with its handle on a session. -/
inductive PageCall where
  | onOpen
  | onClose
  | onError
  | handleFrame (text : String)
  | routeCredential (text : String)
  | routeFailure (e : CeremonyError)
  | challengeId
  | stage
  | role
  | isInitiator

inductive PageAnswer where
  | done
  | text (text : String)
  | bool (b : Bool)
deriving DecidableEq

/-- What comes of a call by a page, and the session after it. -/
def pageCall (s : Session) : PageCall → PageAnswer × Session
  | .onOpen => (.done, s.onOpen)
  | .onClose => (.done, s.onClose)
  | .onError => (.done, s.onTransportError)
  | .handleFrame text => (s.handleFrameText text).map .text id
  | .routeCredential text => (s.routeCredentialText text).map .text id
  | .routeFailure e => (s.routeFailureText e).map .text id
  | .challengeId => (.text s.challengeId, s)
  | .stage => (.text s.stage.name, s)
  | .role => (.text s.role.name, s)
  | .isInitiator => (.bool s.isInitiator, s)

/-- Whether a call of a page is answered by an error, or hands over a text that is JSON but no
frame. -/
inductive PageCall.IsVain (s : Session) : PageCall → Prop where
  | error {c : PageCall} {text : String} (answer : (s.pageCall c).1 = .text text)
      (error : ReportsError text) : IsVain s c
  | unknown {text : String} {v : Value} (frame : Frame.ofText text = .ok (.unknown v)) :
      IsVain s (.handleFrame text)

/-- A frame that is answered with an error leaves the session as it is. -/
theorem handleFrameText_of_error {s : Session} {text : String}
    (h : ReportsError (s.handleFrameText text).1) : (s.handleFrameText text).2 = s := by
  rw [handleFrameText] at h ⊢
  split
  · rename_i e? _ hHandled
    rw [hHandled] at h
    exact absurd h (not_reportsError_effect e?)
  · rename_i hHandled
    exact eq_of_handleText_error hHandled

/-- So does a credential. -/
theorem routeCredentialText_of_reportsError {s : Session} {text : String}
    (h : ReportsError (s.routeCredentialText text).1) : (s.routeCredentialText text).2 = s := by
  cases hRead : s.readCredential text with
  | error message => rw [routeCredentialText_of_error hRead]
  | ok c =>
      rw [routeCredentialText_of_ok hRead] at h
      split at h
      · exact absurd h not_reportsError_socketAnswer
      · exact absurd h not_reportsError_directAnswer

theorem PageCall.IsVain.leaves {s : Session} {c : PageCall} (h : c.IsVain s) :
    (s.pageCall c).2 = s := by
  cases h with
  | unknown frame => rw [pageCall, handleFrameText, handleText_unknown frame]; rfl
  | error answer error =>
      cases c with
      | handleFrame text => cases answer; exact handleFrameText_of_error error
      | routeCredential text => cases answer; exact routeCredentialText_of_reportsError error
      | routeFailure | challengeId | stage | role | isInitiator => rfl
      | onOpen | onClose | onError => cases answer

theorem parse_ceremonyErrorAnswer (e : CeremonyError) :
    parse (ceremonyErrorAnswer e) =
      .ok (.object
        [("error", .object [("message", .string e.message), ("name", .string e.name)])]) := by
  have hError : (Value.object
      [("name", .string e.name), ("message", .string e.message)]).canonical =
      .object [("message", .string e.message), ("name", .string e.name)] :=
    canonical_swapped (by decide)
  refine parse_answer ?_ ⟨⟨trivial, trivial, trivial⟩, trivial⟩
    (by simp [Value.levels, Value.membersLevels])
  exact congrArg (fun v => Value.object [("error", v)]) hError

/-- Out of any run, on a session or on its text interface, any calls can be left out that ended in an
error or handed over a text that is JSON but no frame: the other calls return the same, and the
session is the same in the end. What comes back from a failure of the platform is its name and its
message. -/
theorem failures_leave_no_trace (s : Session) (out : Nat → Bool) :
    (∀ calls : List Call,
      (∀ i (h : i < calls.length), out i → calls[i].IsVain (s.after (calls.take i))) →
        s.answers (without out calls) = without out (s.answers calls) ∧
          s.after (without out calls) = s.after calls) ∧
      (∀ calls : List PageCall,
        (∀ i (h : i < calls.length), out i →
          calls[i].IsVain (afterCalls pageCall s (calls.take i))) →
        returned pageCall s (without out calls) = without out (returned pageCall s calls) ∧
          afterCalls pageCall s (without out calls) = afterCalls pageCall s calls) ∧
      ∀ e : CeremonyError, s.call (.route (.error e)) = (.failed e, s) ∧
        ∃ text, s.pageCall (.routeFailure e) = (.text text, s) ∧
          parse text = .ok (.object
            [("error", .object [("message", .string e.message), ("name", .string e.name)])]) := by
  refine ⟨fun calls hVain => ?_, fun calls hVain => ?_, fun e => ?_⟩
  · simp only [answers_eq_returned]
    exact returned_without call fun i h hOut => (hVain i h hOut).leaves
  · exact returned_without pageCall fun i h hOut => (hVain i h hOut).leaves
  · exact ⟨call_failure s e, _, rfl, parse_ceremonyErrorAnswer e⟩

def emptyCredential : String := "\x7b\"response\":\x7b\x7d\x7d"

/-- On a device that scans the user declines, and odd texts come up before the ceremony is made
again. -/
def retriedCalls : List PageCall :=
  [.onOpen, .handleFrame Event.ready.text, .routeFailure (.notAllowed "cancelled"),
    .handleFrame "[]", .routeCredential "[", .routeCredential emptyCredential, .stage]

/-- A session with failures in between answers as the one without them. -/
theorem retried_without_failures :
    let s := start "room" .get
    let out := fun i => decide (2 ≤ i ∧ i < 5)
    s.answers [.onOpen, .handle Event.ready.text] =
        without out (s.answers [.onOpen, .handle Event.ready.text, .handle "[]", .handle "["]) ∧
      returned pageCall s
          [.onOpen, .handleFrame Event.ready.text, .routeCredential emptyCredential, .stage] =
        without out (returned pageCall s retriedCalls) := by
  intro s out
  obtain ⟨hSession, hPage, -⟩ := failures_leave_no_trace s out
  have hUnknown : Frame.ofText "[]" = .ok (.unknown (.array [])) := by decide +kernel
  have hMalformed : ((s.after [.onOpen, .handle Event.ready.text, .handle "[]"]).call
      (.handle "[")).1.isError := by decide +kernel
  have hMalformed' : ((afterCalls pageCall s (retriedCalls.take 4)).pageCall
      (.routeCredential "[")).1 =
      .text (errorAnswer "EOF while parsing a list") := by decide +kernel
  constructor
  · refine (hSession [.onOpen, .handle Event.ready.text, .handle "[]", .handle "["] ?_).1
    rintro (_ | _ | _ | _ | i) h hOut
    · cases hOut
    · cases hOut
    · exact .unknown hUnknown
    · exact .error hMalformed
    · simp only [List.length_cons, List.length_nil] at h
      omega
  · refine (hPage retriedCalls ?_).1
    rintro (_ | _ | _ | _ | _ | i) h hOut
    · cases hOut
    · cases hOut
    · exact .error rfl (reportsError_ceremonyErrorAnswer _)
    · exact .unknown hUnknown
    · exact .error hMalformed' (reportsError_errorAnswer _)
    · simp only [out, decide_eq_true_eq] at hOut
      omega

end RemoteSigning.Session
