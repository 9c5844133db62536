import RemoteSigning.Proofs.Json.Rewriting
import RemoteSigning.Proofs.Session.Frames

/-!
# How frames are recognised

A text on the relay is a credential if it has a member `response`, an event if it has none and its
member `event` names one, and otherwise anything at all. A text of one of these kinds is written
again as a text of the same kind, and read as the same frame.
-/

namespace RemoteSigning.Session

open Json Ceremony

variable {v w : Value} {e : Event} {f : Frame} {text : String}

/-- Whether a value names an event: by a string, or by an object that maps the name to `null`. -/
def Event.IsSpelled (e : Event) (w : Value) : Prop :=
  w = .string e.name ∨ w = .object [(e.name, .null)]

theorem Event.lookup_choices (name : String) (e : Event) :
    Event.choices.lookup name = some e ↔ e.name = name := by
  constructor
  · intro h
    obtain ⟨before, after, hChoices, -⟩ := List.lookup_eq_some_iff.mp h
    have hChoice : (name, e) ∈ Event.choices := by simp [hChoices]
    obtain ⟨e', -, hSame⟩ := List.mem_map.mp hChoice
    cases hSame
    rfl
  · rintro rfl
    cases e <;> rfl

theorem Event.lawful :
    Event.form.Lawful (fun e => (Frame.event e).toValue) [⟨"event", false, SameName⟩] where
  plain := by decide
  distinct := by decide
  fields := by
    have hRewrites : (Decoder.choice Event.choices).Rewrites (fun e => .string e.name) SameName :=
      Decoder.rewrites_choice fun name e h => (lookup_choices name e).mp h
    refine .cons (Record.Field.obeys_mandatory hRewrites ?_ ?_) .nil
    · intro e _
      rfl
    · intro e x other hOther
      simp [Frame.toValue, Value.member?, Value.lookup_cons, hOther]
  undeclared h := by rw [Record.eq_of_dropped rfl h]
  object e := ⟨_, rfl, List.Sublist.refl _⟩

theorem Event.reads_spelled (h : e.IsSpelled w) : Event.decoder.Reads w e := by
  have hName : Event.choices.lookup e.name = some e := (lookup_choices _ e).mpr rfl
  rcases h with rfl | rfl
  · exact Decoder.reads_choice hName
  · refine ⟨nofun, ?_⟩
    simp only [Document.ofValue, Members.ofValues, decoder, Decoder.choice, Decoder.choose, hName]
    rfl

/-- An object is read as an event by its member of that name. Other members do not matter. -/
theorem Event.decodeValue_eq_ok (hCanonical : v.IsCanonical) (hEvent : v.member? "event" = some w) :
    decodeValue Event.form.decoder v = .ok e ↔ e.IsSpelled w := by
  obtain ⟨members, rfl⟩ : ∃ members, v = .object members := by
    cases v with
    | object members => exact ⟨members, rfl⟩
    | _ => cases hEvent
  constructor
  · intro h
    have hPlace : Place.value.Admits 0 := trivial
    have hValue := value_ofValue (.object members) .value trivial
    rw [hCanonical.canonical_eq] at hValue
    obtain ⟨u, hu, w', hw', name, hSpelled, hName⟩ :=
      (lawful.rewrites hPlace hValue h).holds _ List.mem_cons_self
    obtain rfl := Option.some.inj (hEvent.symm.trans hu)
    obtain rfl : Value.string e.name = w' := Option.some.inj hw'
    obtain rfl := Value.string.inj hName
    exact hSpelled
  · intro h
    obtain ⟨before, after, rfl, -⟩ := List.lookup_eq_some_iff.mp hEvent
    have hDistinct := hCanonical.1.nodup
    have hOther : ∀ m ∈ before ++ after, Event.form.field? m.1 = none := by
      rw [List.map_append, List.map_cons, List.nodup_middle, List.nodup_cons, ← List.map_append]
        at hDistinct
      intro m hm
      have hName : m.1 ≠ "event" := by
        intro hSame
        exact hDistinct.1 (hSame ▸ List.mem_map.mpr ⟨m, hm, rfl⟩)
      simp [Record.field?, form, Record.Field.mandatory, hName.symm]
    obtain ⟨hBefore, hAfter⟩ := List.forall_mem_append.mp hOther
    have hRead : (before ++ ("event", w) :: after).foldlM (Event.form.readMember .value)
        Event.form.empty = .ok e := by
      apply Record.foldlM_append_ok (Record.foldlM_dropped rfl hBefore _)
      apply Record.foldlM_cons_ok _ (Record.foldlM_dropped rfl hAfter _)
      exact Record.readMember_mandatory_ok rfl (reads_spelled h) rfl
    have hRequired : Event.form.required = ["event"] := rfl
    exact (Record.reads_object (by decide) hCanonical.1.nodup (by simp [hRequired]) hRead).2

/-- The frame that a value stands for. -/
inductive StandsFor (v : Value) : Frame → Prop where
  | credential {m : CredentialMessage} (response : (v.member? "response").isSome)
      (read : decodeValue CredentialMessage.form.decoder v = .ok m) : StandsFor v (.credential m)
  | event {e : Event} {w : Value} (noResponse : v.member? "response" = none)
      (present : v.member? "event" = some w) (spelled : e.IsSpelled w) : StandsFor v (.event e)
  | unknown (noResponse : v.member? "response" = none)
      (nameless : ∀ w, v.member? "event" = some w → ∀ e : Event, ¬e.IsSpelled w) :
      StandsFor v (.unknown v)

/-- A value that has a member `response` is a credential or nothing. -/
theorem Frame.ofValue_of_response (h : (v.member? "response").isSome) :
    Frame.ofValue v =
      ((decodeValue CredentialMessage.form.decoder v).mapError .json).map .credential := by
  rw [Frame.ofValue, if_pos h]

/-- Any other value is an event or unknown. -/
theorem Frame.ofValue_of_noResponse (hCanonical : v.IsCanonical)
    (h : v.member? "response" = none) : ∃ f, Frame.ofValue v = .ok f ∧ StandsFor v f := by
  rw [Frame.ofValue, if_neg (by simp [h])]
  cases hEvent : v.member? "event" with
  | none => exact ⟨_, rfl, .unknown h (by simp [hEvent])⟩
  | some w =>
      cases hRead : decodeValue Event.form.decoder v with
      | ok e => exact ⟨_, rfl, .event h hEvent ((Event.decodeValue_eq_ok hCanonical hEvent).mp hRead)⟩
      | error fault =>
          refine ⟨_, rfl, .unknown h fun w' hw' e hSpelled => ?_⟩
          obtain rfl := Option.some.inj (hEvent.symm.trans hw')
          cases hRead.symm.trans ((Event.decodeValue_eq_ok hCanonical hEvent).mpr hSpelled)

/-- No value spells two events. -/
theorem Event.eq_of_isSpelled {e' : Event} (h : e.IsSpelled w) (h' : e'.IsSpelled w) : e = e' := by
  have hReads := (reads_spelled h).2.symm.trans (reads_spelled h').2
  exact Except.ok.inj hReads

/-- A value stands for one frame. -/
theorem StandsFor.unique {f' : Frame} (h : StandsFor v f) (h' : StandsFor v f') : f = f' := by
  cases h with
  | credential response read =>
      cases h' with
      | credential _ read' => exact congrArg _ (Except.ok.inj (read.symm.trans read'))
      | event noResponse => simp [noResponse] at response
      | unknown noResponse => simp [noResponse] at response
  | event noResponse present spelled =>
      cases h' with
      | credential response => simp [noResponse] at response
      | event _ present' spelled' =>
          obtain rfl := Option.some.inj (present.symm.trans present')
          exact congrArg _ (Event.eq_of_isSpelled spelled spelled')
      | unknown _ nameless => exact absurd spelled (nameless _ present _)
  | unknown noResponse nameless =>
      cases h' with
      | credential response => simp [noResponse] at response
      | event _ present spelled => exact absurd spelled (nameless _ present _)
      | unknown => rfl

/-- A canonical value is read as the frame that it stands for. -/
theorem Frame.ofValue_eq_ok (hCanonical : v.IsCanonical) :
    Frame.ofValue v = .ok f ↔ StandsFor v f := by
  cases hResponse : v.member? "response" with
  | none =>
      obtain ⟨f', hOf, hStands⟩ := Frame.ofValue_of_noResponse hCanonical hResponse
      rw [hOf, Except.ok.injEq]
      constructor
      · rintro rfl
        exact hStands
      · exact hStands.unique
  | some u =>
      have hSome : (v.member? "response").isSome := by rw [hResponse]; rfl
      rw [Frame.ofValue_of_response hSome, Except.map_eq_ok]
      constructor
      · rintro ⟨m, hRead, rfl⟩
        exact .credential hSome (Except.mapError_eq_ok.mp hRead)
      · rintro (⟨_, hRead⟩ | ⟨hNone⟩ | ⟨hNone⟩)
        · exact ⟨_, Except.mapError_eq_ok.mpr hRead, rfl⟩
        · cases hNone.symm.trans hResponse
        · cases hNone.symm.trans hResponse

/-- A text is read as the frame that its value stands for. -/
theorem Frame.ofText_eq_ok : Frame.ofText text = .ok f ↔ ∃ v, parse text = .ok v ∧ StandsFor v f := by
  simp only [Frame.ofText, Except.bind_eq_ok, Except.mapError_eq_ok]
  refine exists_congr fun v => and_congr_right fun hParse => ?_
  exact Frame.ofValue_eq_ok (isParsed_of_parseSource hParse).isCanonical

/-- Reading fails for want of JSON, or of a credential where there should be one. -/
theorem Frame.ofText_fails_iff :
    (∃ e, Frame.ofText text = .error e) ↔
      (∃ fault, parse text = .error fault) ∨
        ∃ v, parse text = .ok v ∧ (v.member? "response").isSome ∧
          ∃ e, decodeValue CredentialMessage.form.decoder v = .error e := by
  rw [Frame.ofText]
  cases hParse : parse text with
  | error fault => exact iff_of_true ⟨_, rfl⟩ (.inl ⟨fault, rfl⟩)
  | ok v =>
      simp only [Except.mapError_ok, Except.ok_bind, reduceCtorEq, exists_false, false_or,
        Except.ok.injEq, exists_eq_left']
      cases hResponse : v.member? "response" with
      | none =>
          obtain ⟨f, hOf, -⟩ :=
            Frame.ofValue_of_noResponse (isParsed_of_parseSource hParse).isCanonical hResponse
          simp [hOf]
      | some u =>
          rw [Frame.ofValue_of_response (by rw [hResponse]; rfl)]
          cases decodeValue CredentialMessage.form.decoder v with
          | ok m =>
              refine iff_of_false ?_ ?_
              · rintro ⟨e, ⟨⟩⟩
              · rintro ⟨-, e, ⟨⟩⟩
          | error e => exact iff_of_true ⟨_, rfl⟩ ⟨rfl, e, rfl⟩

/-- What was read from a text whose numbers are integers is read from its own text. -/
theorem Frame.ofText_toText (hParse : parse text = .ok v)
    (hIntegers : v.EveryNumber Numeral.IsInteger) (h : Frame.ofText text = .ok f) :
    Frame.ofText f.toText = .ok f := by
  have hParsed := isParsed_of_parseSource hParse
  obtain ⟨v', hParse', hStands⟩ := Frame.ofText_eq_ok.mp h
  obtain rfl := Except.ok.inj (hParse.symm.trans hParse')
  cases hStands with
  | credential _ read =>
      exact Frame.ofText_credential (CredentialMessage.travels_of_isParsed hParsed hIntegers read)
  | event => exact Frame.ofText_event _
  | unknown noResponse nameless =>
      exact Frame.ofText_eq_ok.mpr
        ⟨v, hParsed.parse_compact hIntegers, .unknown noResponse nameless⟩

/-- Every text on the relay is recognised in one way only, by what it has as members, and what was
read from it is read again from its own text, if all numbers in it are integers. So an event or an
unknown frame never comes back as a credential. Only a text that is not JSON or that has a response
without being a credential is not read at all. -/
theorem frames_stable_and_unambiguous (text : String) :
    ((∃ e, Frame.ofText text = .error e) ↔
      (∃ fault, parse text = .error fault) ∨
        ∃ v, parse text = .ok v ∧ (v.member? "response").isSome ∧
          ∃ e, decodeValue CredentialMessage.form.decoder v = .error e) ∧
    ∀ v f, parse text = .ok v → Frame.ofText text = .ok f →
      ((∃ m, f = .credential m) ↔ (v.member? "response").isSome) ∧
      (∀ e, f = .event e ↔ v.member? "response" = none ∧
        ∃ w, v.member? "event" = some w ∧ e.IsSpelled w) ∧
      ((∀ m, f ≠ .credential m) → (∀ e, f ≠ .event e) → f = .unknown v) ∧
      (v.EveryNumber Numeral.IsInteger → Frame.ofText f.toText = .ok f ∧
        ((∀ m, f ≠ .credential m) → ∀ m, Frame.ofText f.toText ≠ .ok (.credential m))) := by
  refine ⟨Frame.ofText_fails_iff, fun v f hParse hRead => ?_⟩
  obtain ⟨v', hParse', hStands⟩ := Frame.ofText_eq_ok.mp hRead
  obtain rfl := Except.ok.inj (hParse.symm.trans hParse')
  refine ⟨⟨?_, ?_⟩, fun e => ⟨?_, ?_⟩, ?_, fun hIntegers => ?_⟩
  · rintro ⟨m, rfl⟩
    cases hStands with
    | credential response => exact response
  · intro hResponse
    cases hStands with
    | credential => exact ⟨_, rfl⟩
    | event noResponse => simp [noResponse] at hResponse
    | unknown noResponse => simp [noResponse] at hResponse
  · rintro rfl
    cases hStands with
    | event noResponse present spelled => exact ⟨noResponse, _, present, spelled⟩
  · rintro ⟨hNone, w, hEvent, hSpelled⟩
    exact hStands.unique (.event hNone hEvent hSpelled)
  · intro hCredential hEvent
    cases hStands with
    | credential => exact absurd rfl (hCredential _)
    | event => exact absurd rfl (hEvent _)
    | unknown => rfl
  · have hAgain := Frame.ofText_toText hParse hIntegers hRead
    refine ⟨hAgain, fun hCredential m hm => ?_⟩
    exact hCredential m (Except.ok.inj (hAgain.symm.trans hm))

/-- A credential with its answer as an array, a choice as an object and members in disorder. -/
def unusualCredential : String :=
  "\x7b\"response\":[\"_-8\",null,[\"usb\"]],\"authenticatorAttachment\":\x7b\"platform\":null\x7d," ++
  "\"id\":null,\"clientExtensionResults\":\x7b\"b\":[1,-2],\"a\":null\x7d\x7d"

/-- The value that its text holds. -/
def unusualCredentialValue : Value := .object
  [("authenticatorAttachment", .object [("platform", .null)]),
   ("clientExtensionResults", .object [("a", .null), ("b", .array [.integer 1, .integer (-2)])]),
   ("id", .null),
   ("response", .array [.string "_-8", .null, .array [.string "usb"]])]

/-- The message that it is read as. -/
def unusualCredentialMessage : CredentialMessage where
  authenticatorAttachment := some .platform
  response := { clientDataJSON := some "_-8", transports := some ["usb"] }
  clientExtensionResults := some (.object [("a", .null), ("b", .array [.integer 1, .integer (-2)])])

/-- An event that is given twice, among other things. -/
def repeatedEvent : String :=
  "\x7b\"event\":\"ready\",\"x\":1,\"event\":\x7b\"busy\":null\x7d\x7d"

/-- A response that is not a member of the whole. -/
def wrappedResponse : String := "[\x7b\"response\":1\x7d]"

/-- A frame in an unusual form is read again as it was, and a foreign value does not become a
credential for having one in it. -/
theorem unusual_frames_stable :
    Frame.ofText (Frame.credential unusualCredentialMessage).toText =
      .ok (.credential unusualCredentialMessage) ∧
    Frame.ofText (Frame.event .busy).toText = .ok (.event .busy) ∧
    ∀ m, Frame.ofText (Frame.unknown (.array [.object [("response", .integer 1)]])).toText ≠
      .ok (.credential m) := by
  and_intros
  · have hParse : parse unusualCredential = .ok unusualCredentialValue := by decide +kernel
    have hRead : Frame.ofText unusualCredential = .ok (.credential unusualCredentialMessage) := by
      decide +kernel
    have hIntegers : unusualCredentialValue.EveryNumber Numeral.IsInteger := by
      and_intros <;> trivial
    obtain ⟨-, -, -, hStable⟩ :=
      (frames_stable_and_unambiguous unusualCredential).2 _ _ hParse hRead
    exact (hStable hIntegers).1
  · have hParse : parse repeatedEvent =
        .ok (.object [("event", .object [("busy", .null)]), ("x", .integer 1)]) := by
      decide +kernel
    have hRead : Frame.ofText repeatedEvent = .ok (.event .busy) := by decide +kernel
    obtain ⟨-, -, -, hStable⟩ := (frames_stable_and_unambiguous repeatedEvent).2 _ _ hParse hRead
    exact (hStable (by and_intros <;> trivial)).1
  · have hParse : parse wrappedResponse = .ok (.array [.object [("response", .integer 1)]]) := by
      decide +kernel
    have hRead : Frame.ofText wrappedResponse =
        .ok (.unknown (.array [.object [("response", .integer 1)]])) := by
      decide +kernel
    obtain ⟨-, -, -, hStable⟩ :=
      (frames_stable_and_unambiguous wrappedResponse).2 _ _ hParse hRead
    exact (hStable (by and_intros <;> trivial)).2 fun _ => Frame.noConfusion

end RemoteSigning.Session
