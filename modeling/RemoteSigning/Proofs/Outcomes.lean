import RemoteSigning.Outcome
import RemoteSigning.Proofs.Json.Reprinting
import RemoteSigning.Proofs.Json.Rewriting
import RemoteSigning.Proofs.Text.Utf8
import RemoteSigning.Proofs.Time.Instants

/-!
# Answers about a challenge

An answer of the relying party counts as something else than an error only if the request succeeded
and the body says so by its member `status`. The assertion of a signed challenge carries along all
members of the body that it does not declare, and is read again from what is written for it. Every
answer is terminal but a success that says that its challenge is not decided yet, whatever a failure
calls itself.
-/

namespace RemoteSigning

open Json Time

variable {a : SignedAssertion}

namespace SignedAssertion

/-- The members have names and places of their own, so their order makes no difference. -/
theorem orderless : form.Orderless := by
  refine Record.orderless_of_kept rfl (by decide) (by decide) ?_ ?_ ?_
  · simp only [form, List.pairwise_cons, List.forall_mem_cons, List.not_mem_nil, false_implies,
      implies_true, and_true, List.Pairwise.nil]
    and_intros <;> exact Record.Field.apart (by intro x y a; rfl)
  · simp only [form, List.forall_mem_cons, List.not_mem_nil, false_implies, implies_true, and_true]
    and_intros <;> exact Record.Field.apartFrom_kept (by intro x k v a; rfl)
  · intro name v name' v' a hNames
    simp only [Value.insertMember_insertMember hNames]

/-- What every reading of an assertion leaves. -/
structure Settled (a : SignedAssertion) : Prop where
  signed : ∀ t ∈ a.signed, t.IsValid
  payload : form.Carries a.payload

/-- An instant that was read is one of the calendar. -/
theorem isValid_of_instantDecoder {place : Place} {d : Document} {t : Instant}
    (h : instantDecoder place d = .ok t) : t.IsValid := by
  unfold instantDecoder at h
  split at h
  · exact Instant.isValid_of_ofRfc3339 (Except.mapError_eq_ok.mp h)
  · cases h

/-- An assertion that was read is settled. -/
theorem settled_of_decoder {place : Place} {d : Document} (h : form.decoder place d = .ok a) :
    a.Settled := by
  refine Record.keeps_decoder (Q := fun _ => True) (P := Settled)
    (fun inner hEnter => ?_) (fun inner hEnter => ?_) ?_ (fun _ _ => trivial) h
  · refine Record.keepsUndeclared_kept rfl (Place.admits_of_enter hEnter).1 ?_
    intro name v a hName hValue ha
    exact ⟨ha.signed, ha.payload.insertMember hName hValue⟩
  · simp only [form, List.forall_mem_cons, List.not_mem_nil, false_implies, implies_true, and_true]
    refine ⟨?_, ?_, ?signed, ?_, ?_⟩
    case signed =>
      refine Record.Field.keeps_reading fun d t? a _ hRead ha => ⟨?_, ha.payload⟩
      rintro t rfl
      exact isValid_of_instantDecoder (Decoder.of_option hRead).2
    all_goals exact Record.Field.keeps_reading fun _ _ _ _ _ ha => ⟨ha.signed, ha.payload⟩
  · exact ⟨by simp [form], Record.carries_nil form⟩

/-- An instant of the calendar is read from its text. -/
theorem reads_instant {t : Instant} (h : t.IsValid) :
    instantDecoder.Reads (.string t.toRfc3339) t := by
  refine ⟨Value.noConfusion, ?_⟩
  rw [Document.ofValue, instantDecoder, Instant.ofRfc3339_toRfc3339 h, Except.mapError_ok]

/-- The declared members as they are written, whether something is known of them or not. -/
def declared (a : SignedAssertion) : List (String × Value) :=
  [("challengeId", .string a.challengeId), ("userId", .string a.userId),
    ("signed", (a.signed.map fun t => Value.string t.toRfc3339).getD .null),
    ("userPresent", .bool a.userPresent), ("userVerified", .bool a.userVerified)]

theorem toValue_eq (a : SignedAssertion) : a.toValue = .object (a.declared ++ a.payload) := rfl

theorem names_declared (a : SignedAssertion) : a.declared.map (·.1) = form.names := rfl

theorem canonicalMembers_declared (a : SignedAssertion) :
    Value.canonicalMembers a.declared = a.declared := by
  cases hSigned : a.signed <;> simp [declared, hSigned, Value.canonicalMembers, Value.canonical]

namespace Settled

variable (h : a.Settled)
include h

/-- The instant of a signature is read as it was written, or is absent. -/
theorem reads_signed : instantDecoder.option .value (Document.ofValue
    ((a.signed.map fun t => Value.string t.toRfc3339).getD .null)) = .ok a.signed := by
  cases hSigned : a.signed with
  | none => rfl
  | some t => exact (reads_instant (h.signed t hSigned)).option

/-- No member of the payload has the name of a declared one. -/
theorem distinct : ((a.declared ++ a.payload).map (·.1)).Nodup :=
  h.payload.distinct orderless (by rw [names_declared])

/-- An assertion is read from what is written for it. -/
theorem reads : form.decoder.Reads a.toValue.canonical a := by
  rw [toValue_eq]
  refine orderless.reads_canonical h.distinct ?_ ?_
  · exact List.nil_subset _
  rw [Value.canonicalMembers_append, canonicalMembers_declared, h.payload.canonicalMembers_eq]
  have hPayload : a.payload.foldlM (form.readMember .value) { a with payload := [] } = .ok a :=
    Record.Carries.foldlM_kept (r := form) rfl (fun _ _ _ => rfl) h.payload
  refine Record.foldlM_append_ok ?_ hPayload
  refine Record.foldlM_cons_ok (y := { challengeId := a.challengeId })
    (Record.readMember_defaulted_ok (by rfl) (by rfl) (by rfl)) ?_
  refine Record.foldlM_cons_ok (y := { challengeId := a.challengeId, userId := a.userId })
    (Record.readMember_defaulted_ok (by rfl) (by rfl) (by rfl)) ?_
  refine Record.foldlM_cons_ok
    (y := { challengeId := a.challengeId, userId := a.userId, signed := a.signed })
    (Record.readMember_defaulted_ok (by rfl) h.reads_signed (by rfl)) ?_
  refine Record.foldlM_cons_ok
    (y := { challengeId := a.challengeId, userId := a.userId, signed := a.signed,
            userPresent := a.userPresent })
    (Record.readMember_defaulted_ok (by rfl) (by rfl) (by rfl)) ?_
  exact Record.foldlM_cons_ok (Record.readMember_defaulted_ok (by rfl) (by rfl) (by rfl)) rfl

end Settled

/-- What is carried along is what was not declared. -/
theorem payload_eq {members : List (String × Value)} (h : (Value.object members).IsCanonical)
    (hRead : decodeValue form.decoder (.object members) = .ok a) :
    a.payload = members.filter fun m => m.1 ∉ form.names := by
  have hValue : (Document.ofValue (.object members)).value .value = .ok (.object members) := by
    rw [value_ofValue _ .value trivial, h.canonical_eq]
  have hPayload := (settled_of_decoder hRead).payload
  refine hPayload.sorted.ext (h.1.filter _) fun name => ?_
  rw [Value.lookup_filter fun name => decide (name ∉ form.names)]
  by_cases hName : name ∈ form.names
  · rw [if_neg (by simpa using hName), Value.lookup_eq_none]
    intro hCarried
    obtain ⟨m, hm, rfl⟩ := List.mem_map.mp hCarried
    exact (Record.field?_eq_none_iff orderless.plain).mp (hPayload.undeclared m hm) hName
  · rw [if_pos (by simpa using hName)]
    refine Record.lookup_kept rfl orderless.plain payload (fun _ _ _ => rfl)
      (fun inner members => ?_) rfl hValue hRead
      ((Record.field?_eq_none_iff orderless.plain).mpr hName)
    simp only [form, List.forall_mem_cons, List.not_mem_nil, false_implies, implies_true, and_true]
    and_intros <;> exact Record.Field.keeps_reading fun _ _ _ _ _ hx => hx

/-- The text of an assertion that came with an answer can be read: it nests no deeper than the
answer did. -/
theorem parse_compact {members : List (String × Value)} (h : (Value.object members).IsParsed)
    (hPayload : a.payload ⊆ members)
    (hIntegers : ∀ m ∈ a.payload, m.2.EveryNumber Numeral.IsInteger) :
    parse a.toValue.compact = .ok a.toValue.canonical := by
  have hCarried (m : String × Value) (hm : m ∈ a.payload) :
      m.2 ∈ (Value.object members).children := List.mem_map_of_mem (hPayload hm)
  have hDeclared : ∀ m ∈ a.declared, m.2.levels = 0 ∧ m.2.EveryNumber Numeral.IsExact := by
    simp only [declared, List.forall_mem_cons, List.not_mem_nil, false_implies, implies_true,
      and_true]
    cases a.signed <;> simp [Value.levels, Value.EveryNumber]
  rw [toValue_eq]
  refine Json.parse_compact ?_ ?_
  · refine Value.everyNumberMembers_iff.mpr fun m hm => ?_
    rcases List.mem_append.mp hm with hm | hm
    · exact (hDeclared m hm).2
    · exact isExact_of_inRange (h.numbers.children _ (hCarried m hm)) (hIntegers m hm)
  · have hLevels : Value.membersLevels (a.declared ++ a.payload) ≤ 126 := by
      refine Value.membersLevels_le_iff.mpr fun m hm => ?_
      rcases List.mem_append.mp hm with hm | hm
      · rw [(hDeclared m hm).1]
        exact Nat.zero_le _
      · have hInside := Value.levels_lt_of_mem_children _ (hCarried m hm)
        have hBody := h.levels_lt
        omega
    exact Nat.lt_of_le_of_lt (Nat.succ_le_succ hLevels) (by decide)

end SignedAssertion

namespace Outcome

variable {httpStatus : Nat} {body : Value} {o : Outcome}

/-- Whether an answer that is no error comes of a value: the request has succeeded, the value says
what the answer is, and a signed one holds the assertion that is read from it. -/
structure ComesOf (o : Outcome) (httpStatus : Nat) (body : Value) : Prop where
  success : isSuccess httpStatus
  status : body.member? "status" = some (.string o.status)
  assertion : ∀ a, o = .signed a → decodeValue SignedAssertion.form.decoder body = .ok a

/-- An outcome is an error, or it comes of what the body says. -/
theorem ofBody_cases (h : ofBody httpStatus body = o) :
    (∃ code message, o = .error code message) ∨ o.ComesOf httpStatus body := by
  simp only [ofBody] at h
  split at h
  · rename_i hSuccess
    split at h
    case h_1 hStatus | h_2 hStatus | h_3 hStatus =>
      subst h
      exact .inr ⟨hSuccess, Value.member?_of_string? hStatus, fun _ => Outcome.noConfusion⟩
    case h_4 hStatus =>
      unfold ofSigned at h
      split at h
      · rename_i a hRead
        subst h
        refine .inr ⟨hSuccess, Value.member?_of_string? hStatus, fun b hb => ?_⟩
        rwa [← Outcome.signed.inj hb]
      · exact .inl ⟨_, _, h.symm⟩
    case h_5 | h_6 => exact .inl ⟨_, _, h.symm⟩
  · exact .inl ⟨_, _, h.symm⟩

/-- Likewise for an answer, which has to be an object for that. -/
theorem ofResponse_cases {octets : List UInt8} (h : ofResponse httpStatus octets = o) :
    (∃ code message, o = .error code message) ∨ ∃ members,
      parseSource (Text.positions octets) = .ok (.object members) ∧
        o.ComesOf httpStatus (.object members) := by
  unfold ofResponse at h
  split at h
  · rename_i body hParse
    refine (ofBody_cases h).imp_right fun hComes => ?_
    obtain ⟨members, rfl, -⟩ := Value.exists_object_of_member? hComes.status
    exact ⟨members, hParse, hComes⟩
  · exact .inl ⟨_, _, h.symm⟩

/-- The text of an assertion that says that it is signed is an answer with that assertion. -/
theorem ofResponse_compact {a : SignedAssertion} (hSettled : a.Settled)
    (hParse : parse a.toValue.compact = .ok a.toValue.canonical)
    (hStatus : ("status", .string "signed") ∈ a.payload) (hSuccess : isSuccess httpStatus) :
    ofResponse httpStatus (Text.octets a.toValue.compact) = .signed a := by
  have hMember : a.toValue.canonical.member? "status" = some (.string "signed") := by
    rw [SignedAssertion.toValue_eq, Value.member?_canonical hSettled.distinct,
      (Value.mem_iff_lookup hSettled.distinct ("status", .string "signed")).mp
        (List.mem_append_right _ hStatus)]
    rfl
  have hRead : decodeValue SignedAssertion.form.decoder a.toValue.canonical = .ok a :=
    hSettled.reads.2
  rw [parse] at hParse
  simp only [ofResponse, Text.positions_octets, hParse, ofBody, if_pos hSuccess, hMember,
    Option.bind_some, Value.string?, ofSigned, hRead]

/-- An answer is something else than an error only if the request succeeded and the body is an
object whose member `status` says that very thing. If it is a signed one, its assertion carries
exactly the members of the body that are not its own, and its text is an answer with that assertion
again. -/
theorem genuine_and_stable (httpStatus : Nat) (body : List UInt8) :
    ((∃ code message, ofResponse httpStatus body = .error code message) ∨
      200 ≤ httpStatus ∧ httpStatus < 300 ∧
        ∃ members, parseSource (Text.positions body) = .ok (.object members) ∧
          members.lookup "status" = some (.string (ofResponse httpStatus body).status)) ∧
    ∀ a, ofResponse httpStatus body = .signed a →
      ∃ members, parseSource (Text.positions body) = .ok (.object members) ∧
        (a.payload = members.filter fun m =>
          m.1 ∉ ["challengeId", "userId", "signed", "userPresent", "userVerified"]) ∧
        ("status", .string "signed") ∈ a.payload ∧
        ((∀ m ∈ a.payload, m.2.EveryNumber Numeral.IsInteger) →
          ofResponse 200 (Text.octets a.toValue.compact) = .signed a) := by
  refine ⟨(ofResponse_cases rfl).imp_right ?_, fun a hSigned => ?_⟩
  · rintro ⟨members, hParse, hComes⟩
    have hSuccess := hComes.success
    simp only [isSuccess, Bool.and_eq_true, decide_eq_true_eq] at hSuccess
    exact ⟨hSuccess.1, hSuccess.2, members, hParse, hComes.status⟩
  · obtain ⟨_, _, hError⟩ | ⟨members, hParse, hComes⟩ := ofResponse_cases hSigned
    · cases hError
    have hParsed := isParsed_of_parseSource hParse
    have hRead := hComes.assertion a rfl
    have hPayload := SignedAssertion.payload_eq hParsed.isCanonical hRead
    have hStatus : ("status", .string "signed") ∈ a.payload := by
      rw [hPayload, List.mem_filter, Value.mem_iff_lookup hParsed.isCanonical.1.nodup]
      exact ⟨hComes.status, by decide⟩
    have hInside : a.payload ⊆ members := hPayload ▸ List.filter_subset_self _
    refine ⟨members, hParse, hPayload, hStatus, fun hIntegers => ?_⟩
    exact ofResponse_compact (SignedAssertion.settled_of_decoder hRead)
      (SignedAssertion.parse_compact hParsed hInside hIntegers) hStatus rfl

/-- A body that says two things about its status, was signed in a leap second elsewhere, and leaves
out a member that an assertion has. -/
def awkwardAnswer : String :=
  "\x7b\"status\":\"pending\",\"userId\":\"u-1\",\"signed\":\"2017-01-01T05:29:60.25+05:30\"," ++
  "\"userPresent\":true,\"publicKey\":\x7b\"b\":[1,-2],\"a\":null\x7d,\"status\":\"signed\"\x7d"

def awkwardAssertion : SignedAssertion where
  userId := "u-1"
  signed := some ⟨1483228799, 1250000000⟩
  userPresent := true
  payload :=
    [("publicKey", .object [("a", .null), ("b", .array [.integer 1, .integer (-2)])]),
     ("status", .string "signed")]

/-- An awkward answer is a signature, stays so when it is written and read again, and is an error
under a status that is no success. -/
theorem awkward_answer_stable :
    ofResponse 200 (Text.octets awkwardAnswer) = .signed awkwardAssertion ∧
      ofResponse 200 (Text.octets awkwardAssertion.toValue.compact) = .signed awkwardAssertion ∧
      ∃ code message, ofResponse 503 (Text.octets awkwardAnswer) = .error code message := by
  have hSigned : ofResponse 200 (Text.octets awkwardAnswer) = .signed awkwardAssertion := by
    decide +kernel
  obtain ⟨_, -, -, -, hAgain⟩ :=
    (genuine_and_stable 200 (Text.octets awkwardAnswer)).2 awkwardAssertion hSigned
  have hIntegers : ∀ m ∈ awkwardAssertion.payload, m.2.EveryNumber Numeral.IsInteger := by
    simp [awkwardAssertion, Value.EveryNumber, Value.EveryNumberItems, Value.EveryNumberMembers,
      Numeral.IsInteger]
  refine ⟨hSigned, hAgain hIntegers, ?_⟩
  refine (genuine_and_stable 503 (Text.octets awkwardAnswer)).1.resolve_right ?_
  rintro ⟨-, hSuccess, -⟩
  exact absurd hSuccess (by decide)

/-- The statuses of a challenge that is not decided yet. -/
def ongoing : List String := ["pending", "viewed"]

/-- Whether a failure calls itself by one of these: by its status or, if that is no text, by its
error. -/
def IsDisguised (httpStatus : Nat) (body : List UInt8) : Prop :=
  isSuccess httpStatus = false ∧
    ∃ members, parseSource (Text.positions body) = .ok (.object members) ∧
      ∃ code ∈ ongoing, members.lookup "status" = some (.string code) ∨
        (∀ text, members.lookup "status" ≠ some (.string text)) ∧
          members.lookup "error" = some (.string code)

/-- Only undecided outcomes, and errors under their names, show an undecided status. -/
theorem status_mem_ongoing_iff :
    o.status ∈ ongoing ↔ o.isTerminal = false ∨ ∃ code ∈ ongoing, ∃ message, o = .error code message := by
  cases o <;> simp [isTerminal, status, ongoing]

/-- A success is an error only under a code that no ongoing challenge has. -/
theorem code_notMem_of_success (hSuccess : isSuccess httpStatus) {code message : String}
    (h : ofBody httpStatus body = .error code message) : code ∉ ongoing := by
  simp only [ofBody, if_pos hSuccess] at h
  split at h
  case h_1 | h_2 | h_3 => cases h
  case h_4 =>
    unfold ofSigned at h
    split at h
    · cases h
    · obtain ⟨rfl, -⟩ := Outcome.error.inj h
      decide
  case h_5 other hPending hViewed _ _ _ =>
    obtain ⟨rfl, -⟩ := Outcome.error.inj h
    simp only [ongoing, List.mem_cons, List.not_mem_nil, or_false, not_or]
    exact ⟨hPending, hViewed⟩
  case h_6 =>
    obtain ⟨rfl, -⟩ := Outcome.error.inj h
    decide

/-- A failure has one of these as its code exactly if the body names it. -/
theorem status_mem_of_failure (hFailure : isSuccess httpStatus = false) :
    (ofBody httpStatus body).status ∈ ongoing ↔
      ∃ members, body = .object members ∧ ∃ code ∈ ongoing,
        members.lookup "status" = some (.string code) ∨
          (∀ text, members.lookup "status" ≠ some (.string text)) ∧
            members.lookup "error" = some (.string code) := by
  have hUnnamed : ("http_" ++ toString httpStatus) ∉ ongoing := by
    simp [ongoing, String.ext_iff]
  have hCode : (ofBody httpStatus body).status ∈ ongoing ↔ ∃ code ∈ ongoing,
      ((body.member? "status").bind Value.string? <|>
        (body.member? "error").bind Value.string?) = some code := by
    simp only [ofBody, hFailure, Bool.false_eq_true, if_false, status]
    cases ((body.member? "status").bind Value.string? <|>
      (body.member? "error").bind Value.string?) with
    | none => simpa using hUnnamed
    | some code => simp
  simp only [hCode, Option.orElse_eq_some, Value.bind_string?_eq_some, Value.bind_string?_eq_none]
  cases body with
  | object members => simp [Value.member?]
  | _ => simp [Value.member?]

/-- A failure is always terminal. -/
theorem isTerminal_of_failure (hFailure : isSuccess httpStatus = false) :
    (ofBody httpStatus body).isTerminal := by
  simp only [ofBody, hFailure, Bool.false_eq_true, if_false, isTerminal]

/-- A success is undecided exactly if its body says so. -/
theorem ofBody_ongoing_iff (hSuccess : isSuccess httpStatus) :
    (ofBody httpStatus body).isTerminal = false ↔
      ∃ members, body = .object members ∧
        ∃ s ∈ ongoing, members.lookup "status" = some (.string s) := by
  constructor
  · intro hOngoing
    obtain ⟨_, _, hError⟩ | hComes := ofBody_cases (rfl : ofBody httpStatus body = _)
    · simp [hError, isTerminal] at hOngoing
    · obtain ⟨members, rfl, hStatus⟩ := Value.exists_object_of_member? hComes.status
      exact ⟨members, rfl, _, status_mem_ongoing_iff.mpr (.inl hOngoing), hStatus⟩
  · rintro ⟨members, rfl, s, hOngoing, hStatus⟩
    simp only [ofBody, if_pos hSuccess, Value.member?, hStatus, Option.bind_some, Value.string?]
    simp only [ongoing, List.mem_cons, List.not_mem_nil, or_false] at hOngoing
    rcases hOngoing with rfl | rfl <;> rfl

/-- An answer has the status of an undecided challenge exactly if it is about one or is a failure in
disguise. -/
theorem status_ofResponse_mem (httpStatus : Nat) (body : List UInt8) :
    (ofResponse httpStatus body).status ∈ ongoing ↔
      (ofResponse httpStatus body).isTerminal = false ∨ IsDisguised httpStatus body := by
  unfold IsDisguised ofResponse
  cases parseSource (Text.positions body) with
  | error f => simp [status, ongoing, isTerminal, transportCode]
  | ok v =>
      cases hSuccess : isSuccess httpStatus with
      | true =>
          rw [status_mem_ongoing_iff]
          refine or_congr_right (iff_of_false ?_ (by simp))
          rintro ⟨code, hCode, message, hError⟩
          exact code_notMem_of_success hSuccess hError hCode
      | false => simp [isTerminal_of_failure hSuccess, status_mem_of_failure hSuccess]

/-- A failure in disguise is terminal all the same. -/
theorem isTerminal_of_isDisguised {octets : List UInt8} (h : IsDisguised httpStatus octets) :
    (ofResponse httpStatus octets).isTerminal := by
  obtain ⟨hFailure, members, hParse, -⟩ := h
  rw [ofResponse, hParse]
  exact isTerminal_of_failure hFailure

/-- An answer is terminal exactly if its status is not that of an undecided challenge, unless it is
a failure in disguise. Those are the errors with such a code, and they end a collection like all
other errors: only a success can say that a challenge is undecided. -/
theorem terminal_iff_unless_disguised (httpStatus : Nat) (body : List UInt8) :
    (((ofResponse httpStatus body).isTerminal ↔ (ofResponse httpStatus body).status ∉ ongoing) ↔
      ¬IsDisguised httpStatus body) ∧
    (IsDisguised httpStatus body ↔
      ∃ code ∈ ongoing, ∃ message, ofResponse httpStatus body = .error code message) ∧
    ((ofResponse httpStatus body).isTerminal = false ↔
      isSuccess httpStatus ∧ ∃ members, parseSource (Text.positions body) = .ok (.object members) ∧
        ∃ s ∈ ongoing, members.lookup "status" = some (.string s)) := by
  have hStatus := status_ofResponse_mem httpStatus body
  have hDisguised : IsDisguised httpStatus body → (ofResponse httpStatus body).isTerminal :=
    isTerminal_of_isDisguised
  refine ⟨?agreement, ?errors, ?ongoing⟩
  case agreement =>
    rw [hStatus]
    cases hTerminal : (ofResponse httpStatus body).isTerminal with
    | false => simpa [hTerminal] using hDisguised
    | true => simp
  case errors =>
    rw [status_mem_ongoing_iff] at hStatus
    constructor
    · intro h
      exact (hStatus.mpr (.inr h)).resolve_left (by simp [hDisguised h])
    · intro h
      have hTerminal : (ofResponse httpStatus body).isTerminal := by
        obtain ⟨code, -, message, hError⟩ := h
        rw [hError]
        rfl
      exact (hStatus.mp (.inr h)).resolve_left (by simp [hTerminal])
  case ongoing =>
    unfold ofResponse
    cases parseSource (Text.positions body) with
    | error f => simp [isTerminal]
    | ok v =>
        cases hSuccess : isSuccess httpStatus with
        | true => simp [ofBody_ongoing_iff hSuccess]
        | false => simp [isTerminal_of_failure hSuccess]

/-- A failure that says that its challenge is pending has that status, and is terminal. -/
theorem disguised_failure_is_terminal :
    ¬∀ (httpStatus : Nat) (body : List UInt8),
      (ofResponse httpStatus body).isTerminal ↔ (ofResponse httpStatus body).status ∉ ongoing := by
  intro hAgree
  have hFailure : ofResponse 500 (Text.octets "\x7b\"status\":\"pending\"\x7d") =
      .error "pending" "" := by
    decide +kernel
  have hOther := (hAgree 500 (Text.octets "\x7b\"status\":\"pending\"\x7d")).mp
    (by rw [hFailure]; rfl)
  rw [hFailure] at hOther
  exact hOther (by decide)

end Outcome

end RemoteSigning
