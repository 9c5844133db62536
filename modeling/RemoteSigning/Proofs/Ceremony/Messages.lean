import RemoteSigning.Proofs.Ceremony.Credentials
import RemoteSigning.Proofs.Ceremony.Options
import RemoteSigning.Proofs.Json.Reprinting

/-!
# Credential messages as JSON and back

The members of a message are written in the order of their declaration and sorted by name when the
message becomes text. Reading finds each of them again. What the message carries without looking
into it, the extension results, survives if it is canonical, does not nest too deeply and holds
integers only; extension results that came out of text are canonical and do not nest too deeply.
-/

namespace RemoteSigning.Ceremony

open Json

/-- The members of an answer, sorted. -/
def ResponseMessage.sortedMembers (r : ResponseMessage) : List (String × Value) :=
  Value.optional "attestationObject" .string r.attestationObject
    ++ (Value.optional "authenticatorData" .string r.authenticatorData
    ++ (Value.optional "clientDataJSON" .string r.clientDataJSON
    ++ (Value.optional "signature" .string r.signature
    ++ (Value.optional "transports" (listValue .string) r.transports
    ++ Value.optional "userHandle" .string r.userHandle))))

/-- The members of a credential in the order of their names. -/
def CredentialMessage.sortedMembers (m : CredentialMessage) : List (String × Value) :=
  Value.optional "authenticatorAttachment" (fun v => .string v.name) m.authenticatorAttachment
    ++ (Value.optional "clientExtensionResults" (fun v => v) m.clientExtensionResults
    ++ (Value.optional "id" .string m.id
    ++ (Value.optional "rawId" .string m.rawId
    ++ (("response", .object m.response.sortedMembers)
    :: Value.optional "type" .string m.type))))

/-- A response has no members but these, each once and in this order. -/
theorem ResponseMessage.names_sortedMembers (r : ResponseMessage) :
    (r.sortedMembers.map (·.1)).Sublist ["attestationObject", "authenticatorData",
      "clientDataJSON", "signature", "transports", "userHandle"] := by
  simp only [sortedMembers, List.map_append]
  exact (Value.names_optional _ _ _).append <| (Value.names_optional _ _ _).append <|
    (Value.names_optional _ _ _).append <| (Value.names_optional _ _ _).append <|
    (Value.names_optional _ _ _).append <| Value.names_optional _ _ _

theorem CredentialMessage.names_sortedMembers (m : CredentialMessage) :
    (m.sortedMembers.map (·.1)).Sublist ["authenticatorAttachment", "clientExtensionResults", "id",
      "rawId", "response", "type"] := by
  simp only [sortedMembers, List.map_append, List.map_cons]
  exact (Value.names_optional _ _ _).append <| (Value.names_optional _ _ _).append <|
    (Value.names_optional _ _ _).append <| (Value.names_optional _ _ _).append <|
    (Value.names_optional _ _ _).cons_cons _

theorem ResponseMessage.sorted (r : ResponseMessage) : Value.SortedMembers r.sortedMembers :=
  Value.sortedMembers_of_sublist r.names_sortedMembers (by decide +kernel)

theorem CredentialMessage.sorted (m : CredentialMessage) : Value.SortedMembers m.sortedMembers :=
  Value.sortedMembers_of_sublist m.names_sortedMembers (by decide +kernel)

theorem canonical_listValue (l : List String) :
    (listValue .string l).canonical = listValue .string l := by
  rw [listValue, Value.canonical, Value.canonicalItems_map]
  simp only [Value.canonical]

theorem canonicalMembers_string (name : String) (s? : Option String) :
    Value.canonicalMembers (Value.optional name .string s?) = Value.optional name .string s? :=
  Value.canonicalMembers_optional_of_canonical fun _ _ => rfl

/-- Sorting the members of a response gives `sortedMembers`. -/
theorem ResponseMessage.canonical_toValue (r : ResponseMessage) :
    r.toValue.canonical = .object r.sortedMembers := by
  have hTransports : Value.canonicalMembers
      (Value.optional "transports" (listValue .string) r.transports) =
      Value.optional "transports" (listValue .string) r.transports :=
    Value.canonicalMembers_optional_of_canonical fun l _ => canonical_listValue l
  rw [toValue, Value.canonical]
  simp only [Value.canonicalMembers_append, canonicalMembers_string, hTransports]
  refine congrArg Value.object (Value.sortMembers_eq_of_perm ?_ r.sorted)
  refine List.perm_iff_count.mpr fun a => ?_
  simp only [sortedMembers, List.count_append]
  omega

/-- The same of a credential, if what it says about extensions is sorted already. -/
theorem CredentialMessage.canonical_toValue {m : CredentialMessage}
    (h : ∀ v ∈ m.clientExtensionResults, v.IsCanonical) :
    m.toValue.canonical = .object m.sortedMembers := by
  have hResults : Value.canonicalMembers
      (Value.optional "clientExtensionResults" (fun v => v) m.clientExtensionResults) =
      Value.optional "clientExtensionResults" (fun v => v) m.clientExtensionResults :=
    Value.canonicalMembers_optional_of_canonical fun v hv => (h v hv).canonical_eq
  have hAttachment : Value.canonicalMembers (Value.optional "authenticatorAttachment"
      (fun v => .string v.name) m.authenticatorAttachment) =
      Value.optional "authenticatorAttachment" (fun v => .string v.name)
        m.authenticatorAttachment :=
    Value.canonicalMembers_optional_of_canonical fun _ _ => rfl
  rw [toValue, Value.canonical]
  simp only [Value.canonicalMembers_append, Value.canonicalMembers, canonicalMembers_string,
    ResponseMessage.canonical_toValue, hResults, hAttachment]
  refine congrArg Value.object (Value.sortMembers_eq_of_perm ?_ m.sorted)
  refine List.perm_iff_count.mpr fun a => ?_
  simp only [sortedMembers, List.count_append, List.count_cons]
  omega

/-- A response is read from its members in this order. -/
theorem ResponseMessage.reads (r : ResponseMessage) :
    form.decoder.Reads (.object r.sortedMembers) r := by
  refine Record.reads_object (by decide) (.sublist r.names_sortedMembers (by decide))
    (List.nil_subset _) ?_
  have hString (s : String) : Decoder.string.Reads (.string s) s := Decoder.reads_string s
  have hList (l : List String) : (Decoder.list .string).Reads (listValue .string l) l :=
    Decoder.reads_list fun s _ => hString s
  simp only [sortedMembers, List.foldlM_append]
  rw [Record.foldlM_optional (by rfl) rfl fun s _ => hString s, Except.ok_bind,
    Record.foldlM_optional (by rfl) rfl fun s _ => hString s, Except.ok_bind,
    Record.foldlM_optional (by rfl) rfl fun s _ => hString s, Except.ok_bind,
    Record.foldlM_optional (by rfl) rfl fun s _ => hString s, Except.ok_bind,
    Record.foldlM_optional (by rfl) rfl fun l _ => hList l, Except.ok_bind,
    Record.foldlM_optional (by rfl) rfl fun s _ => hString s]

/-- So is a credential. -/
theorem CredentialMessage.reads {m : CredentialMessage}
    (h : ∀ v ∈ m.clientExtensionResults, v ≠ .null ∧ v.IsCanonical) :
    form.decoder.Reads (.object m.sortedMembers) m := by
  have hRequired : form.required = ["response"] := rfl
  refine Record.reads_object (by decide) (.sublist m.names_sortedMembers (by decide)) ?_ ?_
  · rw [hRequired]
    simp [sortedMembers]
  have hString (s : String) : Decoder.string.Reads (.string s) s := Decoder.reads_string s
  simp only [sortedMembers, List.foldlM_append, List.foldlM_cons]
  rw [Record.foldlM_optional (by rfl) rfl fun a _ => a.reads, Except.ok_bind,
    Record.foldlM_optional (by rfl) rfl fun v hv => Decoder.reads_any (h v hv).1 (h v hv).2,
    Except.ok_bind,
    Record.foldlM_optional (by rfl) rfl fun s _ => hString s, Except.ok_bind,
    Record.foldlM_optional (by rfl) rfl fun s _ => hString s, Except.ok_bind,
    Record.readMember_mandatory (by rfl) m.response.reads, Except.ok_bind,
    Record.foldlM_optional (by rfl) rfl fun s _ => hString s]

/-- Whether the extension results of a message survive being written and read. -/
structure CredentialMessage.Travels (m : CredentialMessage) : Prop where
  ne_null : ∀ v ∈ m.clientExtensionResults, v ≠ .null
  isCanonical : ∀ v ∈ m.clientExtensionResults, v.IsCanonical
  levels_lt : ∀ v ∈ m.clientExtensionResults, v.levels < 127
  numbers : ∀ v ∈ m.clientExtensionResults, v.EveryNumber Numeral.IsExact

variable {m : CredentialMessage}

/-- Whether a credential can travel depends on what it says about extensions only. -/
theorem CredentialMessage.Travels.congr {m' : CredentialMessage} (h : m.Travels)
    (hSame : m'.clientExtensionResults = m.clientExtensionResults) : m'.Travels := by
  obtain ⟨hNull, hCanonical, hLevels, hNumbers⟩ := h
  rw [← hSame] at hNull hCanonical hLevels hNumbers
  exact ⟨hNull, hCanonical, hLevels, hNumbers⟩

theorem forall_mem_optional {α : Type} {p : Value → Prop} {name : String} {write : α → Value}
    {a? : Option α} (h : ∀ a ∈ a?, p (write a)) : ∀ n ∈ Value.optional name write a?, p n.2 := by
  cases a? with
  | none => exact List.forall_mem_nil _
  | some a => exact List.forall_mem_singleton.mpr (h a rfl)

/-- Whatever holds of texts and of lists of texts holds of the members of an answer. -/
theorem ResponseMessage.forall_mem_sortedMembers {p : Value → Prop} (hString : ∀ s, p (.string s))
    (hList : ∀ l, p (listValue .string l)) (r : ResponseMessage) :
    ∀ n ∈ r.sortedMembers, p n.2 := by
  simp only [sortedMembers, List.forall_mem_append]
  exact ⟨forall_mem_optional fun s _ => hString s, forall_mem_optional fun s _ => hString s,
    forall_mem_optional fun s _ => hString s, forall_mem_optional fun s _ => hString s,
    forall_mem_optional fun l _ => hList l, forall_mem_optional fun s _ => hString s⟩

/-- What holds of strings, of the response and of what is said about extensions holds of every
member. -/
theorem CredentialMessage.forall_mem_sortedMembers {p : Value → Prop} (hString : ∀ s, p (.string s))
    (hResponse : p (.object m.response.sortedMembers))
    (hResults : ∀ v ∈ m.clientExtensionResults, p v) : ∀ n ∈ m.sortedMembers, p n.2 := by
  simp only [sortedMembers, List.forall_mem_append, List.forall_mem_cons]
  exact ⟨forall_mem_optional fun a _ => hString a.name, forall_mem_optional hResults,
    forall_mem_optional fun s _ => hString s, forall_mem_optional fun s _ => hString s,
    hResponse, forall_mem_optional fun s _ => hString s⟩

theorem itemsLevels_string (l : List String) : Value.itemsLevels (l.map Value.string) = 0 := by
  induction l with
  | nil => rfl
  | cons s l ih => simp only [List.map_cons, Value.itemsLevels, Value.levels, ih, Nat.max_self]

theorem everyNumberItems_string (p : Numeral → Prop) (l : List String) :
    Value.EveryNumberItems p (l.map Value.string) := by
  induction l with
  | nil => trivial
  | cons s l ih => exact ⟨trivial, ih⟩

/-- A credential that can travel is not nested too deeply to be read. -/
theorem CredentialMessage.Travels.levels_sortedMembers (h : m.Travels) :
    (Value.object m.sortedMembers).levels < 128 := by
  have hList (l : List String) : (listValue Value.string l).levels ≤ 1 := by
    rw [listValue, Value.levels, itemsLevels_string]
  have hAnswer : Value.membersLevels m.response.sortedMembers ≤ 1 :=
    Value.membersLevels_le_iff.mpr <|
      ResponseMessage.forall_mem_sortedMembers (p := (·.levels ≤ 1)) (fun _ => Nat.zero_le _) hList _
  have hMembers : Value.membersLevels m.sortedMembers ≤ 126 :=
    Value.membersLevels_le_iff.mpr <|
      CredentialMessage.forall_mem_sortedMembers (p := (·.levels ≤ 126)) (fun _ => Nat.zero_le _)
        (by rw [Value.levels]; omega) fun v hv => Nat.le_of_lt_succ (h.levels_lt v hv)
  rw [Value.levels]
  omega

/-- Its numbers are all printed exactly. -/
theorem CredentialMessage.Travels.numbers_sortedMembers (h : m.Travels) :
    (Value.object m.sortedMembers).EveryNumber Numeral.IsExact := by
  have hAnswer : Value.EveryNumberMembers Numeral.IsExact m.response.sortedMembers :=
    Value.everyNumberMembers_iff.mpr <|
      ResponseMessage.forall_mem_sortedMembers (p := (·.EveryNumber Numeral.IsExact))
        (fun _ => trivial) (fun l => everyNumberItems_string _ l) _
  exact Value.everyNumberMembers_iff.mpr <|
    CredentialMessage.forall_mem_sortedMembers (p := (·.EveryNumber Numeral.IsExact))
      (fun _ => trivial) hAnswer h.numbers

/-- Its text is parsed as the members that were printed. -/
theorem CredentialMessage.Travels.parse_compact (h : m.Travels) :
    parse m.toValue.canonical.compact = .ok (.object m.sortedMembers) := by
  have hCanonical := CredentialMessage.canonical_toValue h.isCanonical
  rw [hCanonical, Json.parse_compact h.numbers_sortedMembers h.levels_sortedMembers, ← hCanonical,
    Value.canonical_canonical]

theorem CredentialMessage.Travels.reads (h : m.Travels) :
    form.decoder.Reads (.object m.sortedMembers) m :=
  CredentialMessage.reads fun v hv => ⟨h.ne_null v hv, h.isCanonical v hv⟩

/-- Whether all numbers in what a credential says about extensions are integers. -/
def CredentialMessage.HasIntegers (m : CredentialMessage) : Prop :=
  ∀ v ∈ m.clientExtensionResults, v.EveryNumber Numeral.IsInteger

/-- What every reading of a message leaves of its extension results. -/
def CredentialMessage.IsRead (m : CredentialMessage) : Prop :=
  ∀ v ∈ m.clientExtensionResults, (v ≠ .null ∧ v.IsCanonical) ∧ v.levels < 127 ∧
    v.EveryNumber Numeral.InRange

/-- The extension results of a message are the value of one of the members. -/
theorem CredentialMessage.forall_results {p : Value → Prop} {place : Place} {d : Document}
    (h : ∀ inner, place.enter = .ok inner → ∀ child ∈ d.children, child ≠ .null →
      ∀ v, child.value inner = .ok v → p v)
    (hRead : form.decoder place d = .ok m) : ∀ v ∈ m.clientExtensionResults, p v := by
  refine Record.keeps_decoder (P := fun m => ∀ v ∈ m.clientExtensionResults, p v)
    (Q := (· ∈ d.children)) (fun _ _ => Record.keepsUndeclared_dropped rfl)
    (fun inner hEnter => ?_) (by simp [form]) (fun _ hChild => hChild) hRead
  simp only [form, List.forall_mem_cons]
  refine ⟨Record.Field.keeps_reading fun _ _ _ _ _ hm => hm,
    Record.Field.keeps_reading fun _ _ _ _ _ hm => hm,
    Record.Field.keeps_reading fun _ _ _ _ _ hm => hm,
    Record.Field.keeps_reading fun _ _ _ _ _ hm => hm,
    Record.Field.keeps_reading fun _ _ _ _ _ hm => hm,
    Record.Field.keeps_reading fun d a x hChild hDecoded _ => ?_, List.forall_mem_nil _⟩
  rintro v hv
  obtain rfl : a = some v := hv
  obtain ⟨hNull, hAny⟩ := Decoder.of_option hDecoded
  exact h inner hEnter d hChild hNull v (Except.mapError_eq_ok.mp hAny)

/-- A credential that comes from a text is one that can be read. -/
theorem CredentialMessage.isRead_of_ofText {text : String} (h : ofText text = .ok m) :
    m.IsRead := by
  simp only [ofText, Except.mapError_eq_ok, decodeText, decodeSource, Except.bind_eq_ok] at h
  obtain ⟨read, hRead, h⟩ := h
  obtain rfl : read = m := by
    split at h
    · cases h
    · exact Except.ok.inj h
  refine forall_results (fun inner hEnter child hChild hNull v hValue => ?_) hRead
  obtain rfl : inner = .text 127 := (Except.ok.inj hEnter).symm
  have hRange := (inRange_root _).children child hChild
  have hRoom : (Place.text 127).Admits 0 := by simp only [Place.Admits]; omega
  obtain ⟨hCanonical, hLevels⟩ := isCanonical_of_value child hRoom hValue
  exact ⟨⟨ne_null_of_value hNull hValue, hCanonical⟩, hLevels,
    everyNumber_of_value child hRange hValue⟩

/-- A message that was read from a value out of text travels if all numbers in it are integers. -/
theorem CredentialMessage.travels_of_isParsed {v : Value} (hParsed : v.IsParsed)
    (hIntegers : v.EveryNumber Numeral.IsInteger) (h : decodeValue form.decoder v = .ok m) :
    m.Travels := by
  have hResults : ∀ w ∈ m.clientExtensionResults, w ≠ .null ∧ w ∈ v.children := by
    refine forall_results (fun inner hEnter child hChild hNull w hValue => ?_) h
    obtain rfl : inner = .value := (Except.ok.inj hEnter).symm
    rw [Document.children_ofValue] at hChild
    obtain ⟨u, hu, rfl⟩ := List.mem_map.mp hChild
    rw [value_ofValue u .value trivial, (hParsed.isCanonical.children u hu).canonical_eq] at hValue
    cases hValue
    refine ⟨?_, hu⟩
    rintro rfl
    exact hNull rfl
  have hLevels := hParsed.levels_lt
  have hExact := isExact_of_inRange hParsed.numbers hIntegers
  constructor
  · exact fun w hw => (hResults w hw).1
  · exact fun w hw => hParsed.isCanonical.children w (hResults w hw).2
  · intro w hw
    have hDeeper := Value.levels_lt_of_mem_children w (hResults w hw).2
    omega
  · exact fun w hw => hExact.children w (hResults w hw).2

/-- A message out of text travels if the numbers it carries along are integers. -/
theorem CredentialMessage.travels_of_ofText {text : String} (h : ofText text = .ok m)
    (hIntegers : m.HasIntegers) : m.Travels := by
  have hRead := isRead_of_ofText h
  exact ⟨fun v hv => (hRead v hv).1.1, fun v hv => (hRead v hv).1.2, fun v hv => (hRead v hv).2.1,
    fun v hv => isExact_of_inRange (hRead v hv).2.2 (hIntegers v hv)⟩

/-- What such a message decodes to travels as well, and is decoded to the same. -/
theorem CredentialMessage.travels_encode {text : String} {kind : Kind} {c : Credential}
    (h : ofText text = .ok m) (hIntegers : m.HasIntegers) (hDecode : m.decode kind = .ok c) :
    c.encode.Travels ∧ c.encode.decode kind = .ok c := by
  obtain ⟨rfl, hSame⟩ := encode_of_decode hDecode
  exact ⟨(travels_of_ofText h hIntegers).congr hSame, decode_encode c⟩

end RemoteSigning.Ceremony
