import RemoteSigning.Session.Handle
import RemoteSigning.Proofs.Session.Frames

/-!
# Credentials behind the text interface

A page that routes a credential is told to send it over the relay, or gets it back to submit it
itself. Either way it is the same credential, as the page at the other end of the relay sees it and
as this page does, and either way the same texts are refused.
-/

namespace RemoteSigning.Session

open Ceremony Json

variable {s s' : Session} {text frame frame' message : String} {c : Credential}

/-- The answer that a frame has to be sent over the relay. -/
def socketAnswer (frame : String) : String :=
  answer [("route", .string "socket"), ("frame", .string frame)]

/-- The answer that a credential is for the page to submit. -/
def directAnswer (credential : Value) : String :=
  answer [("route", .string "direct"), ("credential", credential)]

/-- The answer that a credential has arrived. -/
def credentialAnswer (credential : Value) : String :=
  answer [("effect", .string "credential"), ("credential", credential)]

theorem canonical_swapped {name name' : String} {v v' : Value} (h : name' < name) :
    (Value.object [(name, v), (name', v')]).canonical =
      .object [(name', v'.canonical), (name, v.canonical)] := by
  have hSorted : Value.SortedMembers [(name', v'.canonical), (name, v.canonical)] := by
    simpa [Value.SortedMembers] using h
  exact congrArg Value.object (Value.sortMembers_eq_of_perm (List.Perm.swap _ _ []) hSorted)

/-- The members of an answer are written in the order of their names. -/
theorem socketAnswer_eq (frame : String) :
    socketAnswer frame =
      (Value.object [("frame", .string frame), ("route", .string "socket")]).compact :=
  congrArg Value.compact (canonical_swapped (by decide))

theorem directAnswer_eq (credential : Value) :
    directAnswer credential =
      (Value.object [("credential", credential.canonical), ("route", .string "direct")]).compact :=
  congrArg Value.compact (canonical_swapped (by decide))

theorem credentialAnswer_eq (credential : Value) :
    credentialAnswer credential =
      (Value.object
        [("credential", credential.canonical), ("effect", .string "credential")]).compact :=
  congrArg Value.compact (canonical_swapped (by decide))

/-- Whether an answer is an object whose only member is an error. -/
def ReportsError (text : String) : Prop := ∃ v, text = answer [("error", v)]

theorem reportsError_errorAnswer (message : String) : ReportsError (errorAnswer message) :=
  ⟨_, rfl⟩

theorem reportsError_ceremonyErrorAnswer (e : CeremonyError) :
    ReportsError (ceremonyErrorAnswer e) := ⟨_, rfl⟩

/-- An object whose first member has another name reports no error. -/
theorem not_reportsError {name : String} {v : Value} {rest : List (String × Value)}
    (h : name ≠ "error") : ¬ReportsError (Value.object ((name, v) :: rest)).compact := by
  rintro ⟨error, hSame⟩
  exact h (Value.name_eq_of_compact_eq hSame)

/-- What a page reads in an answer that nests no deeper than texts may. -/
theorem parse_answer {members sorted : List (String × Value)}
    (hSorted : (Value.object members).canonical = .object sorted)
    (hNumbers : (Value.object sorted).EveryNumber Numeral.IsExact)
    (hLevels : (Value.object sorted).levels < 128) :
    parse (answer members) = .ok (.object sorted) := by
  rw [answer, hSorted, parse_compact hNumbers hLevels, ← hSorted, Value.canonical_canonical]

theorem parse_socketAnswer (frame : String) :
    parse (socketAnswer frame) =
      .ok (.object [("frame", .string frame), ("route", .string "socket")]) :=
  parse_answer (canonical_swapped (by decide)) ⟨trivial, trivial, trivial⟩
    (by simp [Value.levels, Value.membersLevels])

/-- The frame can be told from the answer. -/
theorem socketAnswer_injective (h : socketAnswer frame = socketAnswer frame') :
    frame = frame' := by
  have hSame := congrArg parse h
  simpa only [parse_socketAnswer, Except.ok.injEq, Value.object.injEq, List.cons.injEq,
    Prod.mk.injEq, Value.string.injEq, true_and, and_true] using hSame

/-- An answer with a frame is no error. -/
theorem not_reportsError_socketAnswer : ¬ReportsError (socketAnswer frame) := by
  rw [socketAnswer_eq]
  exact not_reportsError (by decide)

theorem not_reportsError_directAnswer {credential : Value} :
    ¬ReportsError (directAnswer credential) := by
  rw [directAnswer_eq]
  exact not_reportsError (by decide)

theorem not_reportsError_effect (e? : Option Effect) : ¬ReportsError (answer (effectMembers e?)) := by
  have hName : "effect" ≠ "error" := by decide
  cases e? with
  | none => exact not_reportsError hName
  | some e =>
      cases e with
      | credentialReceived c =>
          show ¬ReportsError (credentialAnswer c.encode.toValue)
          rw [credentialAnswer_eq]
          exact not_reportsError (by decide)
      | peerJoined | peerLeft | busy | closed | failed => exact not_reportsError hName

theorem readCredential_congr (h : s.kind = s'.kind) (text : String) :
    s.readCredential text = s'.readCredential text := by
  rw [readCredential, readCredential, h]

/-- A credential is read from a text with a message of the kind of the session. -/
theorem readCredential_eq_ok :
    s.readCredential text = .ok c ↔
      ∃ m, CredentialMessage.ofText text = .ok m ∧ m.decode s.kind = .ok c := by
  simp only [readCredential, CredentialMessage.ofText, Except.bind_eq_ok, Except.mapError_eq_ok]

/-- A text that holds no credential is refused by its error, wherever the session is. -/
theorem routeCredentialText_of_error (h : s.readCredential text = .error message) :
    s.routeCredentialText text = (errorAnswer message, s) := by
  rw [routeCredentialText, h]

/-- A credential that was read goes over the socket or comes back. -/
theorem routeCredentialText_of_ok (h : s.readCredential text = .ok c) :
    s.routeCredentialText text =
      if s.sendsOverRelay then
        (socketAnswer (Frame.credential c.encode).toText, { s with stage := .responded })
      else (directAnswer c.encode.toValue, s) := by
  rw [routeCredentialText, h]
  cases hSends : s.sendsOverRelay <;>
    simp [run_routeCeremony_ok, hSends, socketAnswer, directAnswer]

/-- An initiator that has not responded finds in the frame what was routed. -/
theorem handleFrameText_credential {m : CredentialMessage} (hInitiator : s.isInitiator)
    (hUnused : s.stage ≠ .responded) (hText : CredentialMessage.ofText text = .ok m)
    (hIntegers : m.HasIntegers) (hDecode : m.decode s.kind = .ok c) :
    s.handleFrameText (Frame.credential c.encode).toText =
      (credentialAnswer c.encode.toValue, { s with stage := .responded }) := by
  obtain ⟨hTravels, hSame⟩ := CredentialMessage.travels_encode hText hIntegers hDecode
  rw [handleFrameText, handleText_credential hInitiator hUnused hTravels hSame]
  rfl

/-- Whatever text a page routes: if it is told to send a frame, then every initiator that has not
responded takes out of that frame the credential that an unpaired page gets back, and the text is
refused for a scanner that is ready exactly if it is for an unpaired session, by the same error. -/
theorem routes_agree {kind : Kind} {scanner unpaired : Session} {text : String}
    (hScanner : scanner.role = .scanner) (hReady : scanner.stage = .ready)
    (hOpened : scanner.connection = .opened) (hUnpaired : unpaired.sendsOverRelay = false)
    (hKind : scanner.kind = kind) (hKind' : unpaired.kind = kind)
    (hIntegers : ∀ m, CredentialMessage.ofText text = .ok m → m.HasIntegers) :
    (∀ frame, (scanner.routeCredentialText text).1 = socketAnswer frame →
      ∀ initiator : Session, initiator.kind = kind → initiator.isInitiator →
        initiator.stage ≠ .responded →
        ∃ credential, (initiator.handleFrameText frame).1 = credentialAnswer credential ∧
          (unpaired.routeCredentialText text).1 = directAnswer credential) ∧
      (∀ message, (scanner.routeCredentialText text).1 = errorAnswer message ↔
        (unpaired.routeCredentialText text).1 = errorAnswer message) ∧
      ((∃ frame, (scanner.routeCredentialText text).1 = socketAnswer frame) ∨
        ∃ message, (scanner.routeCredentialText text).1 = errorAnswer message) := by
  have hSends : scanner.sendsOverRelay = true := by
    simp [sendsOverRelay, hScanner, hReady, hOpened]
  have hSame := readCredential_congr (hKind.trans hKind'.symm) text
  cases hRead : scanner.readCredential text with
  | error message =>
      have hAnswer := routeCredentialText_of_error hRead
      have hAnswer' := routeCredentialText_of_error (hSame ▸ hRead)
      rw [hAnswer, hAnswer']
      refine ⟨fun frame hFrame => ?_, fun _ => Iff.rfl, .inr ⟨message, rfl⟩⟩
      exact absurd ⟨_, hFrame.symm⟩ not_reportsError_socketAnswer
  | ok c =>
      have hAnswer := routeCredentialText_of_ok hRead
      have hAnswer' := routeCredentialText_of_ok (hSame ▸ hRead)
      rw [hSends, if_pos rfl] at hAnswer
      rw [hUnpaired, if_neg Bool.false_ne_true] at hAnswer'
      rw [hAnswer, hAnswer']
      refine ⟨fun frame hFrame initiator hKind'' hInitiator hUnused => ?_, fun message => ?_,
        .inl ⟨_, rfl⟩⟩
      · obtain ⟨m, hText, hDecode⟩ := readCredential_eq_ok.mp hRead
        rw [hKind, ← hKind''] at hDecode
        rw [← socketAnswer_injective hFrame,
          handleFrameText_credential hInitiator hUnused hText (hIntegers m hText) hDecode]
        exact ⟨_, rfl, rfl⟩
      · exact iff_of_false (fun h => not_reportsError_socketAnswer ⟨_, h⟩)
          fun h => not_reportsError_directAnswer ⟨_, h⟩

/-- What a page gets from its browser, with padding that no route keeps. -/
def paddedText : String :=
  "\x7b\"rawId\":\"AQI=\",\"response\":\x7b\"signature\":\"MEUC\"\x7d," ++
  "\"clientExtensionResults\":\x7b\"uses\":7\x7d\x7d"

def unpaddedFrame : String :=
  "\x7b\"clientExtensionResults\":\x7b\"uses\":7\x7d,\"rawId\":\"AQI\"," ++
  "\"response\":\x7b\"signature\":\"MEUC\"\x7d\x7d"

/-- A credential with padding reaches the relying party in one and the same form on each route. -/
theorem padded_routes_agree :
    let scanner : Session :=
      { challengeId := "room", kind := .get, connection := .opened, stage := .ready
        role := .scanner }
    let initiator : Session :=
      { challengeId := "room", kind := .get, connection := .opened, stage := .ready
        role := .initiator true }
    (scanner.routeCredentialText paddedText).1 = socketAnswer unpaddedFrame ∧
      ∃ credential, (initiator.handleFrameText unpaddedFrame).1 = credentialAnswer credential ∧
        ((start "room" .get).routeCredentialText paddedText).1 = directAnswer credential := by
  intro scanner initiator
  have hText : CredentialMessage.ofText paddedText =
      .ok {
        rawId := some "AQI="
        response := { signature := some "MEUC" }
        clientExtensionResults := some (.object [("uses", .number (.integer 7))]) } := by
    decide +kernel
  have hIntegers (m : CredentialMessage) (h : CredentialMessage.ofText paddedText = .ok m) :
      m.HasIntegers := by
    obtain rfl := Except.ok.inj (hText.symm.trans h)
    rintro v hv
    obtain rfl := Option.some.inj hv
    exact ⟨trivial, trivial⟩
  have hSocket : (scanner.routeCredentialText paddedText).1 = socketAnswer unpaddedFrame := by
    decide +kernel
  have hUnpaired : (start "room" .get).sendsOverRelay = false := rfl
  obtain ⟨hSame, -⟩ := routes_agree (rfl : scanner.role = .scanner) rfl rfl hUnpaired rfl rfl
    hIntegers
  exact ⟨hSocket, hSame unpaddedFrame hSocket initiator rfl rfl (by decide)⟩

end RemoteSigning.Session
