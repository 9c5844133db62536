import RemoteSigning.Proofs.Session.Calls
import Mathlib.Data.List.Induction

/-!
# Runs of a session

What holds of a session after any calls from its start. `Recorded` ties role and stage to the stage
events handled and the answers given so far; every call keeps it, and `start_run_discipline` reads
off it what a session promises over its whole life.
-/

namespace RemoteSigning.Session

open Ceremony

/-- The stage event that settled a role. -/
def Role.origin : Role → Option Event
  | .undetermined => none
  | .initiator _ => some .waiting
  | .scanner => some .ready

/-- The stage that a last stage event leaves behind in a session that has not responded. -/
def Stage.ofLast : Option Event → Stage
  | none => .idle
  | some .ready => .ready
  | some _ => .waiting

variable {s s' : Session}

/-- A session is the initiator if it was first told to wait. -/
theorem isInitiator_iff : s.isInitiator ↔ s.role.origin = some .waiting := by
  cases hRole : s.role <;> simp [isInitiator, Role.origin, hRole]

/-- It is the scanner if it was first told that it is ready. -/
theorem scanner_iff : s.role = .scanner ↔ s.role.origin = some .ready := by
  cases s.role <;> simp [Role.origin]

theorem undetermined_iff : s.role = .undetermined ↔ s.role.origin = none := by
  cases s.role <;> simp [Role.origin]

theorem onWaiting_role :
    s.onWaiting.2.role = if s.role = .undetermined then .initiator false else s.role := by
  cases hStage : s.stage <;> simp [onWaiting, hStage]

theorem onWaiting_stage :
    s.onWaiting.2.stage = if s.stage = .responded then .responded else .waiting := by
  cases hStage : s.stage <;> simp [onWaiting, hStage]

/-- A peer has left only if it was there. -/
theorem onWaiting_effect :
    s.onWaiting.1 = if s.stage = .ready then some .peerLeft else none := by
  cases hStage : s.stage <;> simp [onWaiting, hStage]

theorem onReady_of_responded (h : s.stage = .responded) : s.onReady = (none, s) := by
  simp [onReady, h]

/-- `ready` makes a scanner of a session without a role, and an initiator announces its peer. -/
theorem onReady_role (h : s.stage ≠ .responded) :
    s.onReady.2.role =
      match s.role with
      | .undetermined => .scanner
      | .initiator _ => .initiator true
      | .scanner => .scanner := by
  rcases hRole : s.role with _ | announced | _
  · simp [onReady, h, hRole]
  · cases announced <;> simp [onReady, h, hRole]
  · simp [onReady, h, hRole]

theorem onReady_stage :
    s.onReady.2.stage = if s.stage = .responded then .responded else .ready := by
  by_cases h : s.stage = .responded
  · simp [onReady_of_responded h, h]
  · rcases hRole : s.role with _ | announced | _
    · simp [onReady, h, hRole]
    · cases announced <;> simp [onReady, h, hRole]
    · simp [onReady, h, hRole]

/-- A peer has joined only the first time, and only the initiator is told. -/
theorem onReady_effect :
    s.onReady.1 =
      if s.stage ≠ .responded ∧ s.role = .initiator false then some .peerJoined else none := by
  by_cases h : s.stage = .responded
  · simp [onReady_of_responded h, h]
  · rcases hRole : s.role with _ | announced | _
    · simp [onReady, h, hRole]
    · cases announced <;> simp [onReady, h, hRole]
    · simp [onReady, h, hRole]

theorem onWaiting_kind : s.onWaiting.2.kind = s.kind := by
  cases hStage : s.stage <;> simp [onWaiting, hStage]

theorem onReady_kind : s.onReady.2.kind = s.kind := by
  unfold onReady
  split
  · rfl
  · split <;> rfl

/-- What a session expects does not change. -/
theorem Step.kind_eq {c : Call} {a : Answer} (h : Step s c a s') : s'.kind = s.kind := by
  cases h with
  | waiting event => exact onWaiting_kind
  | ready event => exact onReady_kind
  | _ => rfl

@[simp]
theorem kind_after (s : Session) (calls : List Call) : (s.after calls).kind = s.kind := by
  induction calls generalizing s with
  | nil => rfl
  | cons c rest ih => exact (ih _).trans (step_call s c).kind_eq

/-- How role and stage of a session reflect the stage events handled and the answers given since its
start. -/
structure Recorded (events : List Event) (given : List Answer) (s : Session) : Prop where
  /-- The first stage event has settled the role. -/
  role : s.role.origin = events.head?
  /-- The last stage event shows in the stage, until a credential has gone through. -/
  stage : s.stage ≠ .responded → s.stage = .ofLast events.getLast?
  joined : given.countP Answer.isPeerJoined = if s.role = .initiator true then 1 else 0
  responses : given.countP Answer.isResponse = if s.stage = .responded then 1 else 0
  received : ∀ a ∈ given, a.received?.isSome → s.isInitiator
  relayed : ∀ a ∈ given, a.relayed?.isSome → s.role = .scanner

/-- At first nothing has been told or answered. -/
theorem recorded_start (challengeId : String) (kind : Kind) :
    Recorded [] [] (start challengeId kind) := by
  constructor <;> simp [start, Role.origin, Stage.ofLast]

variable {events : List Event} {given : List Answer}

theorem Recorded.origin_isSome (h : Recorded events given s) (hStage : s.stage = .responded) :
    s.role.origin ≠ none := by
  have hOne : 0 < given.countP Answer.isResponse := by simp [h.responses, hStage]
  obtain ⟨a, ha, hResponse⟩ := List.countP_pos_iff.mp hOne
  rcases Bool.or_eq_true .. ▸ hResponse with hReceived | hRelayed
  · simp [isInitiator_iff.mp (h.received a ha hReceived)]
  · simp [scanner_iff.mp (h.relayed a ha hRelayed)]

theorem Recorded.append_answer {a : Answer} (h : Recorded events given s)
    (hJoined : a.isPeerJoined = false) (hResponse : a.isResponse = false) :
    Recorded events (given ++ [a]) s := by
  obtain ⟨hReceived, hRelayed⟩ : a.received? = none ∧ a.relayed? = none := by
    simpa [Answer.isResponse] using hResponse
  constructor
  · exact h.role
  · exact h.stage
  · simp [hJoined, h.joined]
  · simp [hResponse, h.responses]
  · simpa [or_imp, forall_and, hReceived] using h.received
  · simpa [or_imp, forall_and, hRelayed] using h.relayed

/-- Being told to wait goes on record. -/
theorem Recorded.waiting (h : Recorded events given s) :
    Recorded (events ++ [.waiting]) (given ++ [.effect s.onWaiting.1]) s.onWaiting.2 := by
  have hAnswer : (Answer.effect s.onWaiting.1).isPeerJoined = false ∧
      (Answer.effect s.onWaiting.1).isResponse = false := by
    rw [onWaiting_effect]
    split <;> exact ⟨rfl, rfl⟩
  have hOrigin : s.onWaiting.2.role.origin = s.role.origin.or (some .waiting) := by
    cases hRole : s.role <;> simp [onWaiting_role, hRole, Role.origin]
  have hAnnounced : s.onWaiting.2.role = .initiator true ↔ s.role = .initiator true := by
    cases hRole : s.role <;> simp [onWaiting_role, hRole]
  have hUsed : s.onWaiting.2.stage = .responded ↔ s.stage = .responded := by
    rw [onWaiting_stage]
    split <;> simp_all
  refine Recorded.append_answer ?_ hAnswer.1 hAnswer.2
  constructor
  · rw [hOrigin, h.role, List.head?_append]
    rfl
  · intro hStage
    rw [onWaiting_stage, if_neg (hUsed.not.mp hStage), List.getLast?_concat]
    rfl
  · simp only [hAnnounced, h.joined]
  · simp only [hUsed, h.responses]
  · intro a ha hReceived
    rw [isInitiator_iff, hOrigin, isInitiator_iff.mp (h.received a ha hReceived)]
    rfl
  · intro a ha hRelayed
    rw [scanner_iff, hOrigin, scanner_iff.mp (h.relayed a ha hRelayed)]
    rfl

/-- So does being told to be ready. -/
theorem Recorded.ready (h : Recorded events given s) :
    Recorded (events ++ [.ready]) (given ++ [.effect s.onReady.1]) s.onReady.2 := by
  have hOrigin : s.onReady.2.role.origin = s.role.origin.or (some .ready) := by
    by_cases hStage : s.stage = .responded
    · have hSome := h.origin_isSome hStage
      rw [onReady_of_responded hStage, Option.or_of_isSome (Option.isSome_iff_ne_none.mpr hSome)]
    · cases hRole : s.role <;> simp [onReady_role hStage, hRole, Role.origin]
  have hUsed : s.onReady.2.stage = .responded ↔ s.stage = .responded := by
    rw [onReady_stage]
    split <;> simp_all
  have hResponse : (Answer.effect s.onReady.1).isResponse = false := by
    rw [onReady_effect]
    split <;> rfl
  obtain ⟨hReceived, hRelayed⟩ : (Answer.effect s.onReady.1).received? = none ∧
      (Answer.effect s.onReady.1).relayed? = none := by
    simpa [Answer.isResponse] using hResponse
  constructor
  · rw [hOrigin, h.role, List.head?_append]
    rfl
  · intro hStage
    rw [onReady_stage, if_neg (hUsed.not.mp hStage), List.getLast?_concat]
    rfl
  · by_cases hStage : s.stage = .responded
    · simp [onReady_of_responded hStage, Answer.isPeerJoined, h.joined]
    · rcases hRole : s.role with _ | announced | _
      · simp [onReady_effect, onReady_role hStage, Answer.isPeerJoined, h.joined, hRole]
      · cases announced <;>
          simp [onReady_effect, onReady_role hStage, Answer.isPeerJoined, h.joined, hRole, hStage]
      · simp [onReady_effect, onReady_role hStage, Answer.isPeerJoined, h.joined, hRole]
  · simp only [hUsed, List.countP_append, List.countP_singleton, hResponse, h.responses]
    rfl
  · simp only [List.forall_mem_append, List.forall_mem_singleton, hReceived]
    refine ⟨fun a ha hSome => ?_, by simp⟩
    rw [isInitiator_iff, hOrigin, isInitiator_iff.mp (h.received a ha hSome)]
    rfl
  · simp only [List.forall_mem_append, List.forall_mem_singleton, hRelayed]
    refine ⟨fun a ha hSome => ?_, by simp⟩
    rw [scanner_iff, hOrigin, scanner_iff.mp (h.relayed a ha hSome)]
    rfl

/-- So does every call. -/
theorem Recorded.step {c : Call} {a : Answer} (h : Recorded events given s)
    (hStep : Step s c a s') :
    Recorded (events ++ c.stageEvent?.toList) (given ++ [a]) s' := by
  cases hStep with
  | waiting event => simpa [event] using h.waiting
  | ready event => simpa [event] using h.ready
  | received event initiator unused credential =>
      simp only [event, Option.toList_none, List.append_nil]
      constructor
      · exact h.role
      · simp
      · simpa [Answer.isPeerJoined] using h.joined
      · simp [Answer.isResponse, h.responses, unused]
      · exact fun _ _ _ => initiator
      · simpa [or_imp, forall_and] using h.relayed
  | relayed event scanner ready m =>
      simp only [event, Option.toList_none, List.append_nil]
      constructor
      · exact h.role
      · simp
      · simpa [Answer.isPeerJoined] using h.joined
      · simp [Answer.isResponse, h.responses, ready]
      · simpa [or_imp, forall_and, isInitiator] using h.received
      · exact fun _ _ _ => scanner
  | quiet event _ isQuiet connection =>
      simp only [Answer.isQuiet, Bool.and_eq_true, Bool.not_eq_true'] at isQuiet
      simp only [event, Option.toList_none, List.append_nil]
      have hSame : Recorded events given { s with connection } :=
        ⟨h.role, h.stage, h.joined, h.responses, h.received, h.relayed⟩
      exact hSame.append_answer isQuiet.1.1 isQuiet.2

/-- Any run from the start leaves its stage events and answers on record. -/
theorem recorded_after (challengeId : String) (kind : Kind) (calls : List Call) :
    Recorded (stageEvents calls) ((start challengeId kind).answers calls)
      ((start challengeId kind).after calls) := by
  induction calls using List.reverseRecOn with
  | nil => exact recorded_start challengeId kind
  | append_singleton calls c ih =>
      have hEvents : stageEvents [c] = c.stageEvent?.toList := by
        simp [stageEvents, List.filterMap_cons]
        cases c.stageEvent? <;> rfl
      rw [stageEvents_append, answers_append, after_append, hEvents]
      exact ih.step (step_call _ c)

theorem stageOfLast_eq_ready_iff (e? : Option Event) : Stage.ofLast e? = .ready ↔ e? = some .ready := by
  rcases e? with _ | e
  · simp [Stage.ofLast]
  · cases e <;> simp [Stage.ofLast]

/-- A session has responded exactly if an answer was a response. -/
theorem Recorded.responded_iff (h : Recorded events given s) :
    s.stage = .responded ↔ ∃ a ∈ given, a.isResponse := by
  rw [← List.countP_pos_iff, h.responses]
  split <;> simp_all

/-- It is ready exactly if it was told so last and has not responded. -/
theorem Recorded.ready_iff (h : Recorded events given s) :
    s.stage = .ready ↔ events.getLast? = some .ready ∧ ∀ a ∈ given, a.isResponse = false := by
  have hUnused : s.stage ≠ .responded ↔ ∀ a ∈ given, a.isResponse = false := by
    simp [h.responded_iff]
  rw [← hUnused, ← stageOfLast_eq_ready_iff]
  constructor
  · intro hReady
    have hStage : s.stage ≠ .responded := by simp [hReady]
    exact ⟨h.stage hStage ▸ hReady, hStage⟩
  · rintro ⟨hReady, hStage⟩
    rw [h.stage hStage, hReady]

/-- A peer joins once at most. -/
theorem Recorded.countP_isPeerJoined_le (h : Recorded events given s) :
    given.countP Answer.isPeerJoined ≤ 1 := by
  rw [h.joined]
  split <;> omega

/-- There is one response at most. -/
theorem Recorded.countP_isResponse_le (h : Recorded events given s) :
    given.countP Answer.isResponse ≤ 1 := by
  rw [h.responses]
  split <;> omega

/-- A credential was not both passed on and sent, because these take different roles. -/
theorem Recorded.received_or_relayed (h : Recorded events given s) :
    (∀ a ∈ given, a.received? = none) ∨ ∀ a ∈ given, a.relayed? = none := by
  by_cases hRole : s.role = .scanner
  · refine .inl fun a ha => Option.not_isSome_iff_eq_none.mp fun hSome => ?_
    have hInitiator := h.received a ha hSome
    simp [isInitiator, hRole] at hInitiator
  · exact .inr fun a ha => Option.not_isSome_iff_eq_none.mp fun hSome => hRole (h.relayed a ha hSome)

/-- The other device is reported as gone by a `waiting` in a session that is ready, and by nothing
else. -/
theorem Step.isPeerLeft_iff {c : Call} {a : Answer} (h : Step s c a s') :
    a.isPeerLeft ↔ c.stageEvent? = some .waiting ∧ s.stage = .ready := by
  cases h with
  | waiting event =>
      rw [onWaiting_effect]
      split <;> simp_all [Answer.isPeerLeft]
  | ready event =>
      rw [onReady_effect]
      split <;> simp_all [Answer.isPeerLeft]
  | received event => simp [event, Answer.isPeerLeft]
  | relayed event => simp [event, Answer.isPeerLeft]
  | quiet event _ isQuiet => simp_all [Answer.isQuiet]

theorem Step.isInitiator_of_received {c : Call} {a : Answer} (h : Step s c a s')
    (hReceived : a.received?.isSome) : s.isInitiator := by
  cases h with
  | received event initiator => exact initiator
  | waiting event =>
      rw [onWaiting_effect] at hReceived
      split at hReceived <;> cases hReceived
  | ready event =>
      rw [onReady_effect] at hReceived
      split at hReceived <;> cases hReceived
  | relayed event => cases hReceived
  | quiet event _ isQuiet => simp_all [Answer.isQuiet, Answer.isResponse]

theorem Step.scanner_of_relayed {c : Call} {a : Answer} (h : Step s c a s')
    (hRelayed : a.relayed?.isSome) : s.role = .scanner := by
  cases h with
  | relayed event scanner => exact scanner
  | quiet event _ isQuiet => simp_all [Answer.isQuiet, Answer.isResponse]
  | _ => cases hRelayed

/-- A role that has been taken stays. -/
theorem origin_after (challengeId : String) (kind : Kind) (calls more : List Call)
    (h : ((start challengeId kind).after calls).role ≠ .undetermined) :
    ((start challengeId kind).after (calls ++ more)).role.origin =
      ((start challengeId kind).after calls).role.origin := by
  have hBefore := (recorded_after challengeId kind calls).role
  have hAfter := (recorded_after challengeId kind (calls ++ more)).role
  obtain ⟨first, hFirst⟩ := Option.ne_none_iff_exists'.mp (hBefore ▸ undetermined_iff.not.mp h)
  rw [hAfter, hBefore, stageEvents_append, List.head?_append, hFirst, Option.some_or]

theorem Step.responded {c : Call} {a : Answer} (h : Step s c a s') (hStage : s.stage = .responded) :
    s'.stage = .responded := by
  cases h with
  | waiting event => simp [onWaiting_stage, hStage]
  | ready event => simp [onReady_stage, hStage]
  | received event => rfl
  | relayed event => rfl
  | quiet event => exact hStage

/-- A session that has responded stays so, whatever is called. -/
theorem responded_after (h : s.stage = .responded) (calls : List Call) :
    (s.after calls).stage = .responded := by
  induction calls generalizing s with
  | nil => exact h
  | cons c rest ih => exact ih ((step_call s c).responded h)

/-- The discipline of a session over any run of calls from its start. The first stage event settles
the role for good; a session that has responded stays so; the peer is announced once, and a single
credential is passed on, by an initiator, or sent, by a scanner; the peer is reported as gone exactly
by a `waiting` that follows a `ready` before any credential has gone through. -/
theorem start_run_discipline (challengeId : String) (kind : Kind) (calls : List Call) :
    let s := (start challengeId kind).after calls
    let given := (start challengeId kind).answers calls
    ((s.isInitiator ↔ (stageEvents calls).head? = some .waiting) ∧
      (s.role = .scanner ↔ (stageEvents calls).head? = some .ready) ∧
      (s.role = .undetermined ↔ stageEvents calls = []) ∧
      (s.role ≠ .undetermined → ∀ more, (s.after more).role.origin = s.role.origin)) ∧
    (s.stage = .responded → ∀ more, (s.after more).stage = .responded) ∧
    (given.countP Answer.isPeerJoined ≤ 1 ∧
      given.countP (·.received?.isSome) ≤ 1 ∧
      given.countP (·.relayed?.isSome) ≤ 1 ∧
      ((∀ a ∈ given, a.received? = none) ∨ ∀ a ∈ given, a.relayed? = none) ∧
      (∀ c, (s.call c).1.received?.isSome → s.isInitiator) ∧
      (∀ c, (s.call c).1.relayed?.isSome → s.role = .scanner)) ∧
    (∀ c, (s.call c).1.isPeerLeft ↔ c.stageEvent? = some .waiting ∧
      (stageEvents calls).getLast? = some .ready ∧ ∀ a ∈ given, a.isResponse = false) := by
  intro s given
  have h : Recorded (stageEvents calls) given s := recorded_after challengeId kind calls
  refine ⟨⟨?_, ?_, ?_, ?_⟩, ?_, ⟨h.countP_isPeerJoined_le, ?_, ?_, h.received_or_relayed, ?_, ?_⟩, ?_⟩
  · rw [isInitiator_iff, h.role]
  · rw [scanner_iff, h.role]
  · rw [undetermined_iff, h.role, List.head?_eq_none_iff]
  · intro hRole more
    have := origin_after challengeId kind calls more hRole
    rwa [after_append] at this
  · exact fun hStage more => responded_after hStage more
  · refine Nat.le_trans (List.countP_mono_left fun a _ hSome => ?_) h.countP_isResponse_le
    simp only [Answer.isResponse, hSome, Bool.true_or]
  · refine Nat.le_trans (List.countP_mono_left fun a _ hSome => ?_) h.countP_isResponse_le
    simp only [Answer.isResponse, hSome, Bool.or_true]
  · exact fun c => (step_call s c).isInitiator_of_received
  · exact fun c => (step_call s c).scanner_of_relayed
  · exact fun c => by rw [(step_call s c).isPeerLeft_iff, h.ready_iff]

end RemoteSigning.Session
