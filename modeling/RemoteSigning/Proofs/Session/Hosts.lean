import RemoteSigning.Proofs.Session.Frames
import RemoteSigning.Proofs.Session.Runs

/-!
# A session that hosts

What becomes of a session that hears `waiting`, then `ready`, and then one and the same credential
any number of times, while its device makes whatever other calls it likes in between: it announces
its peer, passes the credential on, and says nothing else.
-/

namespace RemoteSigning.Session

open Ceremony

variable {s : Session} {c : Credential} {m : CredentialMessage}

/-- The answers that are not quiet, in their order. -/
def told (given : List Answer) : List Answer := given.filter (!·.isQuiet)

theorem told_concat_of_quiet (given : List Answer) {a : Answer} (h : a.isQuiet) :
    told (given ++ [a]) = told given := by
  simp [told, h]

theorem told_concat_of_not_quiet (given : List Answer) {a : Answer} (h : a.isQuiet = false) :
    told (given ++ [a]) = told given ++ [a] := by
  simp [told, h]

/-- A call of the device's own accord stays quiet and leaves role and stage alone, unless it sends a
credential over the relay. -/
theorem call_own {x : Call} (hOwn : x.text? = none) (hKeeps : s.sendsOverRelay = false) :
    (s.call x).1.isQuiet ∧ (s.call x).2.role = s.role ∧ (s.call x).2.stage = s.stage := by
  cases x with
  | onOpen => exact ⟨rfl, rfl, rfl⟩
  | onClose => exact ⟨rfl, rfl, rfl⟩
  | onTransportError => exact ⟨rfl, rfl, rfl⟩
  | handle text => cases hOwn
  | route outcome =>
      cases outcome with
      | error e => exact ⟨rfl, rfl, rfl⟩
      | ok c =>
          have hDirect : s.run (routeCeremony (.ok c)) = (.ok (.direct c), s) := by
            simp [run_routeCeremony_ok, hKeeps]
          simp only [call, hDirect, and_self, and_true]
          rfl

/-- The texts that come for a host, the credential so many times. -/
def hostTexts (m : CredentialMessage) (k : Nat) : List String :=
  Event.waiting.text :: Event.ready.text :: List.replicate k (Frame.credential m).toText

/-- The role of a host after that many texts. -/
def hostRole : Nat → Role
  | 0 => .undetermined
  | 1 => .initiator false
  | _ => .initiator true

/-- The stage of a host after that many texts. -/
def hostStage : Nat → Stage
  | 0 => .idle
  | 1 => .waiting
  | 2 => .ready
  | _ => .responded

/-- What a host has been told after that many texts. -/
def hostTold (c : Credential) : Nat → List Answer
  | 0 | 1 => []
  | 2 => [.effect (some .peerJoined)]
  | _ => [.effect (some .peerJoined), .effect (some (.credentialReceived c))]

/-- Whether a session is that of a host that has heard so many texts. -/
structure Hosting (c : Credential) (n : Nat) (s : Session) (given : List Answer) : Prop where
  role : s.role = hostRole n
  stage : s.stage = hostStage n
  told : told given = hostTold c n

variable {given : List Answer} {n : Nat}

/-- A host never sends over the relay. -/
theorem Hosting.sendsOverRelay (h : Hosting c n s given) : s.sendsOverRelay = false := by
  have hRole : s.role ≠ .scanner := by
    rw [h.role]
    rcases n with _ | _ | n <;> simp [hostRole]
  simp [Session.sendsOverRelay, hRole]

/-- What a host does on its own changes nothing about it. -/
theorem Hosting.own (h : Hosting c n s given) {x : Call} (hOwn : x.text? = none) :
    Hosting c n (s.call x).2 (given ++ [(s.call x).1]) := by
  obtain ⟨hQuiet, hRole, hStage⟩ := call_own hOwn h.sendsOverRelay
  exact ⟨hRole.trans h.role, hStage.trans h.stage,
    (told_concat_of_quiet given hQuiet).trans h.told⟩

theorem Hosting.waiting (h : Hosting c 0 s given) :
    Hosting c 1 (s.call (.handle Event.waiting.text)).2
      (given ++ [(s.call (.handle Event.waiting.text)).1]) := by
  have hRole : s.role = .undetermined := h.role
  have hStage : s.stage = .idle := h.stage
  have hWaiting : s.handleEvent .waiting =
      (none, { s with role := .initiator false, stage := .waiting }) := by
    simp [handleEvent, onWaiting, hRole, hStage]
  simp only [call_handle_event, hWaiting]
  refine ⟨rfl, rfl, ?_⟩
  rw [told_concat_of_quiet _ rfl, h.told]
  rfl

theorem Hosting.ready (h : Hosting c 1 s given) :
    Hosting c 2 (s.call (.handle Event.ready.text)).2
      (given ++ [(s.call (.handle Event.ready.text)).1]) := by
  have hRole : s.role = .initiator false := h.role
  have hStage : s.stage = .waiting := h.stage
  have hReady : s.handleEvent .ready =
      (some .peerJoined, { s with role := .initiator true, stage := .ready }) := by
    simp [handleEvent, onReady, hRole, hStage]
  simp only [call_handle_event, hReady]
  refine ⟨rfl, rfl, ?_⟩
  rw [told_concat_of_not_quiet _ rfl, h.told]
  rfl

/-- The first credential is passed on; any other comes too late. -/
theorem Hosting.credential (h : Hosting c (n + 2) s given) (hTravels : m.Travels)
    (hDecode : m.decode s.kind = .ok c) :
    Hosting c (n + 3) (s.call (.handle (Frame.credential m).toText)).2
      (given ++ [(s.call (.handle (Frame.credential m).toText)).1]) := by
  have hRole : s.role = .initiator true := h.role
  have hInitiator : s.isInitiator := by simp [isInitiator, hRole]
  cases n with
  | zero =>
      have hStage : s.stage = .ready := h.stage
      rw [call_handle_credential hInitiator (by simp [hStage]) hTravels hDecode]
      refine ⟨hRole, rfl, ?_⟩
      rw [told_concat_of_not_quiet _ rfl, h.told]
      rfl
  | succ n =>
      have hStage : s.stage = .responded := h.stage
      rw [call_handle_credential_of_unread (by simp [hStage]) hTravels]
      refine ⟨hRole, hStage, ?_⟩
      rw [told_concat_of_quiet _ rfl, h.told]
      rfl

/-- A host goes on with the next of its texts. -/
theorem Hosting.next (h : Hosting c n s given) {t : String} {k : Nat}
    (hText : (hostTexts m k)[n]? = some t)
    (hCredential : 0 < k → m.Travels ∧ m.decode s.kind = .ok c) :
    Hosting c (n + 1) (s.call (.handle t)).2 (given ++ [(s.call (.handle t)).1]) := by
  rcases n with _ | _ | j
  · rw [hostTexts, List.getElem?_cons_zero, Option.some.injEq] at hText
    subst hText
    exact h.waiting
  · rw [hostTexts, List.getElem?_cons_succ, List.getElem?_cons_zero, Option.some.injEq] at hText
    subst hText
    exact h.ready
  · -- Whatever comes after the first two texts is the credential.
    rw [hostTexts, List.getElem?_cons_succ, List.getElem?_cons_succ, List.getElem?_replicate] at hText
    split at hText
    · rename_i hLess
      obtain ⟨hTravels, hDecode⟩ := hCredential (by omega)
      rw [Option.some.injEq] at hText
      subst hText
      exact h.credential hTravels hDecode
    · cases hText

/-- Over any calls that hand over what comes for a host, in its order, a session is that of a host. -/
theorem hosting_after (challengeId : String) {kind : Kind} {k : Nat} (calls : List Call)
    (hCredential : 0 < k → m.Travels ∧ m.decode kind = .ok c)
    (hTexts : calls.filterMap Call.text? <+: hostTexts m k) :
    Hosting c (calls.filterMap Call.text?).length ((start challengeId kind).after calls)
      ((start challengeId kind).answers calls) := by
  induction calls using List.reverseRecOn with
  | nil => exact ⟨rfl, rfl, rfl⟩
  | append_singleton calls x ih =>
      rw [List.filterMap_append] at hTexts
      have hBefore := ih ((List.prefix_append _ _).trans hTexts)
      rw [after_append, answers_append, List.filterMap_append]
      cases hText : x.text? with
      | none =>
          rw [List.filterMap_cons_none hText, List.filterMap_nil, List.append_nil]
          exact hBefore.own hText
      | some t =>
          obtain rfl : x = .handle t := by
            cases x <;> simp_all [Call.text?]
          rw [List.filterMap_cons_some hText, List.filterMap_nil] at hTexts ⊢
          obtain ⟨rest, hRest⟩ := hTexts
          have hNext : (hostTexts m k)[(calls.filterMap Call.text?).length]? = some t := by
            rw [← hRest]
            simp
          rw [List.length_append, List.length_singleton]
          refine hBefore.next hNext fun hk => ?_
          rw [kind_after]
          exact hCredential hk

/-- Nothing that is told is left out of the count. -/
theorem countP_told (given : List Answer) :
    (told given).countP Answer.isPeerJoined = given.countP Answer.isPeerJoined := by
  rw [told, List.countP_filter]
  refine List.countP_congr fun a _ => ?_
  simp only [Answer.isQuiet]
  cases a.isPeerJoined <;> simp

theorem filterMap_received?_told (given : List Answer) :
    (told given).filterMap Answer.received? = given.filterMap Answer.received? := by
  rw [told, List.filterMap_filter]
  refine List.filterMap_congr fun a _ => ?_
  cases h : a.received? with
  | none => simp
  | some c => simp [Answer.isQuiet, Answer.isResponse, h]

/-- A host that has heard no credential has passed none on. -/
theorem Hosting.received_eq_nil (h : Hosting c n s given) (hn : n ≤ 2) :
    given.filterMap Answer.received? = [] := by
  rw [← filterMap_received?_told, h.told]
  match n with
  | 0 => rfl
  | 1 => rfl
  | 2 => rfl

/-- A host that has heard the credential has passed it on once, after announcing its peer once. -/
theorem Hosting.received_eq (h : Hosting c n s given) (hn : 3 ≤ n) :
    given.filterMap Answer.received? = [c] ∧
      ∃ first rest, given = first ++ .effect (some (.credentialReceived c)) :: rest ∧
        first.countP Answer.isPeerJoined = 1 := by
  obtain ⟨j, rfl⟩ : ∃ j, n = j + 3 := ⟨n - 3, by omega⟩
  have hTold : Session.told given = [.effect (some .peerJoined)] ++
      .effect (some (.credentialReceived c)) :: [] := h.told
  refine ⟨by rw [← filterMap_received?_told, hTold]; rfl, ?_⟩
  obtain ⟨first, later, rfl, hFirst, hLater⟩ := List.filter_eq_append_iff.mp hTold
  obtain ⟨between, rest, rfl, hBetween, -, -⟩ := List.filter_eq_cons_iff.mp hLater
  refine ⟨first ++ between, rest, by simp, ?_⟩
  have hQuiet : Session.told between = [] := List.filter_eq_nil_iff.mpr hBetween
  have hAnnounced : Session.told (first ++ between) = [.effect (some .peerJoined)] := by
    rw [Session.told, List.filter_append]
    exact (congrArg₂ (· ++ ·) hFirst hQuiet)
  rw [← countP_told, hAnnounced]
  rfl

end RemoteSigning.Session
