import RemoteSigning.CommandLine.Watch
import RemoteSigning.Proofs.Session.Messages

/-!
# What is noticed while a challenge is displayed

Of what happens, the outcomes of the collection and what the relay tells call for something. What
the relay tells depends only on what has arrived from it before, so all notices are known without
knowing how they are acted on. A relay that has ended or failed gives no more notices, and whatever
arrives, it hands over one credential at most.
-/

namespace RemoteSigning.CommandLine

open Session Ceremony

/-- What calls for something while a challenge is displayed. -/
inductive Notice where
  | outcome (o : Outcome)
  | effect (e : Effect)
  /-- The relay has failed. -/
  | lost (f : Failure)
deriving DecidableEq

namespace Notice

/-- Whether a notice says that the code was scanned. -/
def isScan : Notice → Bool
  | .outcome .viewed => true
  | .effect .peerJoined => true
  | _ => false

/-- Whether a notice is the last one from the relay. -/
def endsRelay : Notice → Bool
  | .effect .busy | .effect .closed | .effect .failed | .lost _ => true
  | _ => false

/-- The credential that a notice hands over. -/
def credential? : Notice → Option Credential
  | .effect (.credentialReceived c) => some c
  | _ => none

theorem credential?_eq_some {n : Notice} {c : Credential} :
    n.credential? = some c ↔ n = .effect (.credentialReceived c) := by
  constructor
  · intro h
    cases n with
    | outcome o | lost f => cases h
    | effect e => cases e <;> cases h; rfl
  · rintro rfl
    rfl

/-- A scan hands nothing over. -/
theorem credential?_of_isScan {n : Notice} (h : n.isScan) : n.credential? = none := by
  cases n with
  | outcome o | lost f => rfl
  | effect e => cases e <;> trivial

/-- A terminal outcome is not about a scan. -/
theorem isScan_of_isTerminal {o : Outcome} (h : o.isTerminal) :
    (Notice.outcome o).isScan = false := by
  cases o <;> trivial

end Notice

/-- Whether something has arrived from the relay. -/
def Happening.isArrival : Happening → Bool
  | .arrived _ => true
  | _ => false

theorem Happening.exists_arrived {h : Happening} (hArrival : h.isArrival) :
    ∃ m, h = .arrived m := by
  cases h with
  | arrived m => exact ⟨m, rfl⟩
  | published u | displayEnded | polled o => cases hArrival

/-- The notice that a message from the relay gives, and the session after it. -/
def hearMessage (s : Session) (m : Session.Message) : Option Notice × Option Session :=
  match s.receive m with
  | (.ok none, s) => (none, some s)
  | (.ok (some e), s) => (some (.effect e), if (Notice.effect e).endsRelay then none else some s)
  | (.error f, _) => (some (.lost f), none)

/-- The notice that a happening gives, if any, and the session with the relay after it. There is no
session if nothing is taken from the relay any more. -/
def hear (relay : Option Session) : Happening → Option Notice × Option Session
  | .polled o => (some (.outcome o), relay)
  | .arrived m => relay.elim (none, none) (hearMessage · m)
  | _ => (none, relay)

/-- All notices that happenings give. -/
def notices (relay : Option Session) : List Happening → List Notice
  | [] => []
  | h :: rest => (hear relay h).1.toList ++ notices (hear relay h).2 rest

/-- All that a message from the relay can give. -/
inductive Heard (s : Session) (m : Session.Message) : Option Notice → Option Session → Prop where
  | nothing {s' : Session} (received : s.receive m = (.ok none, s')) : Heard s m none (some s')
  | effect {e : Effect} {s' : Session} (received : s.receive m = (.ok (some e), s')) :
      Heard s m (some (.effect e)) (if (Notice.effect e).endsRelay then none else some s')
  | lost {f : Failure} {s' : Session} (received : s.receive m = (.error f, s')) :
      Heard s m (some (.lost f)) none

/-- `Heard` is all that hearing a message can lead to. -/
theorem heard_hear (s : Session) (m : Session.Message) :
    Heard s m (hear (some s) (.arrived m)).1 (hear (some s) (.arrived m)).2 := by
  rw [hear, Option.elim_some, hearMessage]
  rcases hReceive : s.receive m with ⟨f | _ | e, s'⟩
  · exact .lost hReceive
  · exact .nothing hReceive
  · exact .effect hReceive

/-- The credentials that notices hand over, in this order. -/
def credentials (told : List Notice) : List Credential := told.filterMap Notice.credential?

@[simp]
theorem credentials_append (told more : List Notice) :
    credentials (told ++ more) = credentials told ++ credentials more :=
  List.filterMap_append

@[simp]
theorem credentials_singleton (n : Notice) : credentials [n] = n.credential?.toList := by
  cases hCredential : n.credential? <;> simp [credentials, hCredential]

/-- A credential is handed over exactly if a notice says so. -/
theorem mem_credentials {told : List Notice} {c : Credential} :
    c ∈ credentials told ↔ .effect (.credentialReceived c) ∈ told := by
  simp only [credentials, List.mem_filterMap, Notice.credential?_eq_some, exists_eq_right]

/-- A notice of a credential comes from a message to a session that has not responded. -/
theorem hear_eq_credential {relay : Option Session} {h : Happening} {c : Credential}
    (hHeard : (hear relay h).1 = some (.effect (.credentialReceived c))) :
    ∃ s s' m, relay = some s ∧ h = .arrived m ∧ (hear relay h).2 = some s' ∧
      s.stage ≠ .responded ∧ s'.stage = .responded ∧ m.Relays s.kind c := by
  cases h with
  | published u | displayEnded | polled o => cases hHeard
  | arrived m =>
      cases relay with
      | none => cases hHeard
      | some s =>
          have hCases := heard_hear s m
          rw [hHeard] at hCases
          generalize (hear (some s) (.arrived m)).2 = relay' at hCases ⊢
          cases hCases with
          | effect received =>
              obtain ⟨hUnused, hResponded, hRelays⟩ := receive_eq_credential received
              exact ⟨s, _, m, rfl, rfl, rfl, hUnused, hResponded, hRelays⟩

/-- What all sessions that there are satisfy. -/
theorem forall_hear {P : Session → Prop} (hReceive : ∀ s m, P s → P (s.receive m).2)
    {relay : Option Session} (hAll : ∀ s ∈ relay, P s) (h : Happening) :
    ∀ s ∈ (hear relay h).2, P s := by
  cases h with
  | published u | displayEnded | polled o => exact hAll
  | arrived m =>
      cases relay with
      | none => simp [hear]
      | some s =>
          have hNext := hReceive s m (hAll s rfl)
          have hCases := heard_hear s m
          generalize (hear (some s) (.arrived m)).1 = n? at hCases
          generalize (hear (some s) (.arrived m)).2 = relay' at hCases ⊢
          cases hCases with
          | nothing received =>
              rw [received] at hNext
              simpa using hNext
          | effect received =>
              rw [received] at hNext
              split
              · simp
              · simpa using hNext
          | lost received => simp

/-- Whatever happens first is noticed first. -/
theorem credentials_notices_cons (relay : Option Session) (h : Happening) (rest : List Happening) :
    credentials (notices relay (h :: rest)) =
      credentials (hear relay h).1.toList ++ credentials (notices (hear relay h).2 rest) := by
  rw [notices, credentials_append]

/-- One happening gives at most one credential, and only to a session that has not responded. -/
theorem credentials_hear (relay : Option Session) (h : Happening) :
    credentials (hear relay h).1.toList = [] ∨
      ∃ c, (hear relay h).1 = some (.effect (.credentialReceived c)) ∧
        credentials (hear relay h).1.toList = [c] := by
  cases hHeard : (hear relay h).1 with
  | none => exact .inl rfl
  | some n =>
      cases hCredential : n.credential? with
      | none => exact .inl (by simp [credentials, hCredential])
      | some c =>
          obtain rfl := Notice.credential?_eq_some.mp hCredential
          exact .inr ⟨c, rfl, rfl⟩

/-- No credential is noticed after the session has responded. -/
theorem credentials_notices_of_responded {relay : Option Session}
    (hAll : ∀ s ∈ relay, s.stage = .responded) (happenings : List Happening) :
    credentials (notices relay happenings) = [] := by
  induction happenings generalizing relay with
  | nil => rfl
  | cons h rest ih =>
      rw [credentials_notices_cons, ih (forall_hear (fun _ m hs => receive_responded hs m) hAll h),
        List.append_nil]
      rcases credentials_hear relay h with hNone | ⟨c, hHeard, -⟩
      · exact hNone
      · obtain ⟨s, _, _, hSession, -, -, hUnused, -⟩ := hear_eq_credential hHeard
        exact absurd (hAll s hSession) hUnused

/-- Whatever happens, at most one credential is noticed. -/
theorem length_credentials_notices_le (relay : Option Session) (happenings : List Happening) :
    (credentials (notices relay happenings)).length ≤ 1 := by
  induction happenings generalizing relay with
  | nil => exact Nat.zero_le 1
  | cons h rest ih =>
      rw [credentials_notices_cons]
      rcases credentials_hear relay h with hNone | ⟨c, hHeard, hOne⟩
      · rw [hNone, List.nil_append]
        exact ih _
      · obtain ⟨_, s', _, -, -, hAfter, -, hResponded, -⟩ := hear_eq_credential hHeard
        have hAll : ∀ s ∈ (hear relay h).2, s.stage = .responded := by
          rw [hAfter]
          rintro _ ⟨⟩
          exact hResponded
        rw [hOne, credentials_notices_of_responded hAll]
        exact Nat.le_refl 1

/-- Every credential that is noticed was relayed, and is of the kind that the session expects. -/
theorem exists_arrived_of_mem_credentials {relay : Option Session} {kind : Kind}
    (hKind : ∀ s ∈ relay, s.kind = kind) {happenings : List Happening} {c : Credential}
    (hMem : c ∈ credentials (notices relay happenings)) :
    ∃ m, .arrived m ∈ happenings ∧ m.Relays kind c := by
  induction happenings generalizing relay with
  | nil => cases hMem
  | cons h rest ih =>
      rw [credentials_notices_cons, List.mem_append] at hMem
      rcases hMem with hNow | hLater
      · rcases credentials_hear relay h with hNone | ⟨c', hHeard, hOne⟩
        · rw [hNone] at hNow
          cases hNow
        · obtain ⟨s, _, m, hSession, rfl, -, -, -, hRelays⟩ := hear_eq_credential hHeard
          rw [hOne, List.mem_singleton] at hNow
          rw [hNow]
          exact ⟨m, List.mem_cons_self, hKind s hSession ▸ hRelays⟩
      · have hNext : ∀ s ∈ (hear relay h).2, s.kind = kind :=
          forall_hear (fun s m hs => (s.receive_kind m).trans hs) hKind h
        obtain ⟨m, hArrived, hRelays⟩ := ih hNext hLater
        exact ⟨m, List.mem_cons_of_mem h hArrived, hRelays⟩

/-- After a notice that ends it, the relay is not listened to any more. -/
theorem hear_endsRelay {relay : Option Session} {h : Happening} {n : Notice}
    (hHeard : (hear relay h).1 = some n) (hEnds : n.endsRelay) : (hear relay h).2 = none := by
  cases h with
  | published u | displayEnded => cases hHeard
  | polled o => cases hHeard; cases hEnds
  | arrived m =>
      cases relay with
      | none => rfl
      | some s =>
          have hCases := heard_hear s m
          rw [hHeard] at hCases
          generalize (hear (some s) (.arrived m)).2 = relay' at hCases ⊢
          cases hCases with
          | effect received => exact if_pos hEnds
          | lost received => rfl

/-- And it is never listened to again. -/
theorem hear_none (h : Happening) : (hear none h).2 = none := by
  cases h <;> rfl

/-- The relay closes, so the device that it would tell of is not noticed any more. -/
example :
    let s : Session := (Session.start "c" .get).onOpen
    notices (some s) [.polled .pending, .arrived .close, .arrived .other, .polled .viewed] =
      [.outcome .pending, .effect .closed, .outcome .viewed] := by
  rfl

end RemoteSigning.CommandLine
