import RemoteSigning.Proofs.Ceremony.Envelopes
import RemoteSigning.Proofs.Ceremony.Options
import RemoteSigning.Proofs.Json.Rewriting

/-!
# Options written again

Options that were read and are written again have every member that they had, and no other one. Each
declared member has its law; all others stay as they are.
-/

namespace RemoteSigning.Ceremony

open Json
open Base64 (unpadded)

/-- A binary value loses its padding. -/
def Unpadded (v w : Value) : Prop := ∃ text, v = .string text ∧ w = .string (unpadded text)

/-- A binary member is written without the padding that it was read with. -/
theorem rewrites_binary : Decoder.string.Rewrites (fun s => .string (unpadded s)) Unpadded := by
  intro place d v s _ hValue hRead
  exact ⟨s, Decoder.value_of_string hValue hRead, rfl⟩

theorem rewrites_strings : (Decoder.list .string).Rewrites (listValue .string) Eq := by
  intro place d v l hPlace hValue hRead
  obtain ⟨vs, ws, rfl, hWritten, hItems⟩ := Decoder.rewrites_string.list hPlace hValue hRead
  rw [List.forall₂_eq_eq_eq] at hItems
  exact (congrArg Value.array hItems).trans hWritten.symm

theorem rewrites_natValue : Decoder.u64.Rewrites natValue Eq := Decoder.rewrites_u64

/-- What holds of each item of a list holds of the list entry by entry. -/
theorem rewrites_listValue {α : Type} {decoder : Decoder α} {write : α → Value}
    {rel : Value → Value → Prop} (h : decoder.Rewrites write rel) :
    (Decoder.list decoder).Rewrites (listValue write) (EntryByEntry rel) := h.list

/-- The names of choices are those under which they are listed. -/
theorem rewrites_names {α : Type} {name : α → String} {listed : List α} :
    (Decoder.choice (listed.map fun a => (name a, a))).Rewrites (fun a => .string (name a))
      SameName := by
  refine Decoder.rewrites_choice fun s a h => ?_
  induction listed with
  | nil => cases h
  | cons b listed ih =>
      rw [List.map_cons, List.lookup_cons] at h
      split at h
      · rename_i hSame
        cases h
        exact (beq_iff_eq.mp hSame).symm
      · exact ih h

/-- What becomes of the members of a relying party. -/
def RelyingPartyEntity.laws : List Law := [⟨"id", true, Eq⟩, ⟨"name", true, Eq⟩]

/-- Only the identifier of a user is rewritten. -/
def UserEntity.laws : List Law :=
  [⟨"id", false, Unpadded⟩, ⟨"name", true, Eq⟩, ⟨"displayName", true, Eq⟩]

def KeyParameter.laws : List Law := [⟨"type", false, Eq⟩, ⟨"alg", false, Eq⟩]

/-- Only the identifier of a descriptor is rewritten. -/
def CredentialDescriptor.laws : List Law :=
  [⟨"type", false, Eq⟩, ⟨"id", false, Unpadded⟩, ⟨"transports", true, Eq⟩]

def AuthenticatorSelection.laws : List Law :=
  [⟨"authenticatorAttachment", true, SameName⟩, ⟨"residentKey", true, SameName⟩,
    ⟨"requireResidentKey", true, Eq⟩, ⟨"userVerification", true, SameName⟩]

/-- A relying party obeys its laws, and so do the others. -/
theorem RelyingPartyEntity.lawful : form.Lawful toValue laws where
  plain := by decide
  distinct := by decide
  fields := by
    refine .cons (Record.Field.obeys_optional Decoder.rewrites_string ?_ ?_ rfl) <|
      .cons (Record.Field.obeys_optional Decoder.rewrites_string ?_ ?_ rfl) .nil
    all_goals intros; simp [toValue, Value.member?, List.lookup_append, Value.lookup_optional, *]
  undeclared h := by rw [Record.eq_of_dropped rfl h]
  object r := by
    refine ⟨_, rfl, ?_⟩
    rw [List.map_append]
    exact (Value.names_optional _ _ _).append (Value.names_optional _ _ _)

theorem UserEntity.lawful : form.Lawful (fun u => u.withoutPadding.toValue .string) laws where
  plain := by decide
  distinct := by decide
  fields := by
    refine .cons (Record.Field.obeys_mandatory rewrites_binary ?_ ?_) <|
      .cons (Record.Field.obeys_optional Decoder.rewrites_string ?_ ?_ rfl) <|
      .cons (Record.Field.obeys_optional Decoder.rewrites_string ?_ ?_ rfl) .nil
    all_goals
      intros
      simp [withoutPadding, toValue, Value.member?, List.lookup_append, Value.lookup_cons,
        Value.lookup_optional, *]
  undeclared h := by rw [Record.eq_of_dropped rfl h]
  object u := by
    refine ⟨_, rfl, ?_⟩
    rw [List.map_append]
    exact ((Value.names_optional _ _ _).cons_cons _).append (Value.names_optional _ _ _)

theorem KeyParameter.lawful : form.Lawful toValue laws where
  plain := by decide
  distinct := by decide
  fields := by
    refine .cons (Record.Field.obeys_mandatory Decoder.rewrites_string ?_ ?_) <|
      .cons (Record.Field.obeys_mandatory Decoder.rewrites_i64 ?_ ?_) .nil
    all_goals intros; simp [toValue, Value.member?, Value.lookup_cons, *]
  undeclared h := by rw [Record.eq_of_dropped rfl h]
  object p := ⟨_, rfl, List.Sublist.refl _⟩

theorem CredentialDescriptor.lawful :
    form.Lawful (fun d => d.withoutPadding.toValue .string) laws where
  plain := by decide
  distinct := by decide
  fields := by
    refine .cons (Record.Field.obeys_mandatory Decoder.rewrites_string ?_ ?_) <|
      .cons (Record.Field.obeys_mandatory rewrites_binary ?_ ?_) <|
      .cons (Record.Field.obeys_optional rewrites_strings ?_ ?_ rfl) .nil
    all_goals
      intros
      simp [withoutPadding, toValue, Value.member?, Value.lookup_cons, Value.lookup_optional, *]
  undeclared h := by rw [Record.eq_of_dropped rfl h]
  object d := ⟨_, rfl, ((Value.names_optional _ _ _).cons_cons _).cons_cons _⟩

/-- A list of descriptors obeys the laws of a descriptor entry by entry. -/
theorem CredentialDescriptor.rewrites_list :
    (Decoder.list form.decoder).Rewrites
      (fun l => listValue (toValue .string) (l.map (·.withoutPadding)))
      (EntryByEntry (Rewritten laws)) := by
  simpa only [listValue, List.map_map, Function.comp_def] using lawful.rewrites.list

theorem AuthenticatorSelection.lawful : form.Lawful toValue laws where
  plain := by decide
  distinct := by decide
  fields := by
    refine .cons (Record.Field.obeys_optional rewrites_names ?_ ?_ rfl) <|
      .cons (Record.Field.obeys_optional rewrites_names ?_ ?_ rfl) <|
      .cons (Record.Field.obeys_optional Decoder.rewrites_bool ?_ ?_ rfl) <|
      .cons (Record.Field.obeys_optional rewrites_names ?_ ?_ rfl) .nil
    all_goals intros; simp [toValue, Value.member?, List.lookup_append, Value.lookup_optional, *]
  undeclared h := by rw [Record.eq_of_dropped rfl h]
  object s := by
    refine ⟨_, rfl, ?_⟩
    simp only [List.map_append]
    exact (((Value.names_optional _ _ _).append (Value.names_optional _ _ _)).append
      (Value.names_optional _ _ _)).append (Value.names_optional _ _ _)

/-- What becomes of each declared member of the options, down to those of the structures in them. -/
def CreationOptions.laws : List Law :=
  [⟨"rp", true, Rewritten RelyingPartyEntity.laws⟩,
   ⟨"user", true, Rewritten UserEntity.laws⟩,
   ⟨"challenge", false, Unpadded⟩,
   ⟨"pubKeyCredParams", true, EntryByEntry (Rewritten KeyParameter.laws)⟩,
   ⟨"timeout", true, Eq⟩,
   ⟨"excludeCredentials", true, EntryByEntry (Rewritten CredentialDescriptor.laws)⟩,
   ⟨"authenticatorSelection", true, Rewritten AuthenticatorSelection.laws⟩,
   ⟨"attestation", true, SameName⟩,
   ⟨"extensions", true, Eq⟩]

/-- What becomes of each declared member of the options for a request. -/
def RequestOptions.laws : List Law :=
  [⟨"challenge", false, Unpadded⟩,
   ⟨"timeout", true, Eq⟩,
   ⟨"rpId", true, Eq⟩,
   ⟨"allowCredentials", true, EntryByEntry (Rewritten CredentialDescriptor.laws)⟩,
   ⟨"userVerification", true, SameName⟩,
   ⟨"extensions", true, Eq⟩]

/-- The declared members as they are written again. -/
def CreationOptions.declared (o : CreationOptions String) : Value :=
  .object (o.withoutPadding.members .string)

/-- The declared members as they are written again. -/
def RequestOptions.declared (o : RequestOptions String) : Value :=
  .object (o.withoutPadding.members .string)

/-- The declared members of the options obey their laws, whatever stands beside them. -/
theorem CreationOptions.lawful : form.Lawful declared laws where
  plain := by decide
  distinct := by decide
  fields := by
    refine .cons (Record.Field.obeys_optional RelyingPartyEntity.lawful.rewrites ?_ ?_ rfl) <|
      .cons (Record.Field.obeys_optional UserEntity.lawful.rewrites ?_ ?_ rfl) <|
      .cons (Record.Field.obeys_mandatory rewrites_binary ?_ ?_) <|
      .cons (Record.Field.obeys_optional (rewrites_listValue KeyParameter.lawful.rewrites)
        ?_ ?_ rfl) <|
      .cons (Record.Field.obeys_optional rewrites_natValue ?_ ?_ rfl) <|
      .cons (Record.Field.obeys_optional CredentialDescriptor.rewrites_list ?_ ?_ rfl) <|
      .cons (Record.Field.obeys_optional AuthenticatorSelection.lawful.rewrites ?_ ?_ rfl) <|
      .cons (Record.Field.obeys_optional rewrites_names ?_ ?_ rfl) <|
      .cons (Record.Field.obeys_optional Decoder.rewrites_any ?_ ?_ rfl) .nil
    all_goals
      intros
      simp [declared, withoutPadding, members, Value.member?, List.lookup_append,
        Value.lookup_cons, Value.lookup_optional, Function.comp_def, *]
  undeclared h := by
    obtain ⟨v, -, rfl⟩ := Record.exists_of_kept rfl h
    rfl
  object o := ⟨_, rfl, o.withoutPadding.names_members⟩

theorem RequestOptions.lawful : form.Lawful declared laws where
  plain := by decide
  distinct := by decide
  fields := by
    refine .cons (Record.Field.obeys_mandatory rewrites_binary ?_ ?_) <|
      .cons (Record.Field.obeys_optional rewrites_natValue ?_ ?_ rfl) <|
      .cons (Record.Field.obeys_optional Decoder.rewrites_string ?_ ?_ rfl) <|
      .cons (Record.Field.obeys_optional CredentialDescriptor.rewrites_list ?_ ?_ rfl) <|
      .cons (Record.Field.obeys_optional rewrites_names ?_ ?_ rfl) <|
      .cons (Record.Field.obeys_optional Decoder.rewrites_any ?_ ?_ rfl) .nil
    all_goals
      intros
      simp [declared, withoutPadding, members, Value.member?, List.lookup_append,
        Value.lookup_cons, Value.lookup_optional, Function.comp_def, *]
  undeclared h := by
    obtain ⟨v, -, rfl⟩ := Record.exists_of_kept rfl h
    rfl
  object o := ⟨_, rfl, o.withoutPadding.names_members⟩

section

variable {place : Place} {d : Document} {v : Value}

/-- What is written for options that were read preserves what they were read from. -/
theorem CreationOptions.preserves {o : CreationOptions String} (hValue : d.value place = .ok v)
    (hRead : form.decoder place d = .ok o) : Preserved laws v o.withoutPadding.toValue.canonical := by
  refine lawful.preserves rfl orderless hValue hRead rfl (settled_of_decoder hRead).extra ?_
  intro name hName
  refine Record.lookup_kept rfl lawful.plain extra (fun _ _ _ => rfl) (fun inner members => ?_) rfl
    hValue hRead hName
  simp only [form, List.forall_mem_cons, List.not_mem_nil, false_implies, implies_true, and_true]
  and_intros <;> exact Record.Field.keeps_reading fun _ _ _ _ _ hx => hx

/-- The same of the options for a request. -/
theorem RequestOptions.preserves {o : RequestOptions String} (hValue : d.value place = .ok v)
    (hRead : form.decoder place d = .ok o) : Preserved laws v o.withoutPadding.toValue.canonical := by
  refine lawful.preserves rfl orderless hValue hRead rfl (settled_of_decoder hRead).extra ?_
  intro name hName
  refine Record.lookup_kept rfl lawful.plain extra (fun _ _ _ => rfl) (fun inner members => ?_) rfl
    hValue hRead hName
  simp only [form, List.forall_mem_cons, List.not_mem_nil, false_implies, implies_true, and_true]
  and_intros <;> exact Record.Field.keeps_reading fun _ _ _ _ _ hx => hx

end

/-- Whatever a value is that is read as options, of either kind: the options are written again with
every member that was there, but for declared ones that may be `null` and are, and with no other one.
What is not declared stays as it is, `null` included. Time limits, identifiers of relying parties and
extensions are the same values, choices have the same names, binaries lose their padding, and lists
keep their length and order; records inside have no member that was not there. -/
theorem options_preserved (v : Value) :
    (∀ (o : CreationOptions String) (n : CreationOptions Bytes),
      CreationOptions.form.decoder.Accepts v o → o.decode = .ok n →
        Preserved CreationOptions.laws v n.encode.toValue.canonical) ∧
    (∀ (o : RequestOptions String) (n : RequestOptions Bytes),
      RequestOptions.form.decoder.Accepts v o → o.decode = .ok n →
        Preserved RequestOptions.laws v n.encode.toValue.canonical) := by
  constructor
  · intro o n hAccepts hDecode
    obtain ⟨place, d, hValue, hRead⟩ := hAccepts.exists_document
    rw [← (o.decode_eq_ok n).mp hDecode]
    exact CreationOptions.preserves hValue hRead
  · intro o n hAccepts hDecode
    obtain ⟨place, d, hValue, hRead⟩ := hAccepts.exists_document
    rw [← (o.decode_eq_ok n).mp hDecode]
    exact RequestOptions.preserves hValue hRead

/-- A registration with structures as arrays and objects, `null` where a member may be absent and
where it is not declared, padded binaries and a choice in its object form. -/
def unusualCreation : Value := Value.canonical <| .object
  [("user", .array [.string "AQI=", .null]),
   ("rp", .object [("name", .string "Example"), ("id", .null), ("icon", .string "x")]),
   ("zeta", .object [("b", .null), ("a", .integer 1)]),
   ("hints", .null),
   ("timeout", .null),
   ("pubKeyCredParams", .array
     [.array [.string "public-key", .integer (-7)],
      .object [("alg", .integer (-257)), ("type", .string "public-key")]]),
   ("attestation", .object [("direct", .null)]),
   ("challenge", .string "_-8=")]

/-- What is written for it. -/
def rewrittenCreation : Value := Value.canonical <| .object
  [("user", .object [("id", .string "AQI")]),
   ("rp", .object [("name", .string "Example")]),
   ("zeta", .object [("b", .null), ("a", .integer 1)]),
   ("hints", .null),
   ("pubKeyCredParams", .array
     [.object [("type", .string "public-key"), ("alg", .integer (-7))],
      .object [("type", .string "public-key"), ("alg", .integer (-257))]]),
   ("attestation", .string "direct"),
   ("challenge", .string "_-8")]

/-- An assertion in which a member that is not declared is given twice. -/
def unusualRequest : String :=
  "\x7b\"rpId\":null,\"zeta\":1,\"challenge\":\"_-8=\",\"userVerification\":\"required\"," ++
  "\"allowCredentials\":[[\"public-key\",\"AQI=\"]],\"timeout\":60000,\"zeta\":null\x7d"

/-- The value that its text holds. -/
def unusualRequestValue : Value := .object
  [("allowCredentials", .array [.array [.string "public-key", .string "AQI="]]),
   ("challenge", .string "_-8="),
   ("rpId", .null),
   ("timeout", .integer 60000),
   ("userVerification", .string "required"),
   ("zeta", .null)]

/-- What is written for it. -/
def rewrittenRequest : Value := .object
  [("allowCredentials", .array
     [.object [("id", .string "AQI"), ("type", .string "public-key")]]),
   ("challenge", .string "_-8"),
   ("timeout", .integer 60000),
   ("userVerification", .string "required"),
   ("zeta", .null)]

/-- Options in unusual forms are accepted and preserved. -/
theorem unusual_options_preserved :
    Preserved CreationOptions.laws unusualCreation rewrittenCreation ∧
      Preserved RequestOptions.laws unusualRequestValue rewrittenRequest := by
  constructor
  · let o : CreationOptions String :=
      { rp := some { name := some "Example" }
        user := some { id := "AQI=" }
        challenge := "_-8="
        pubKeyCredParams := some [⟨"public-key", -7⟩, ⟨"public-key", -257⟩]
        attestation := some .direct
        extra := [("hints", .null), ("zeta", .object [("a", .integer 1), ("b", .null)])] }
    let n : CreationOptions Bytes :=
      { o with user := some { id := [1, 2] }, challenge := [255, 239], excludeCredentials := none }
    have hRead : CreationOptions.form.decoder.Accepts unusualCreation o :=
      .memory (Value.isCanonical_canonical _) (by decide +kernel)
    have hWritten : n.encode.toValue.canonical = rewrittenCreation := by decide +kernel
    exact hWritten ▸ (options_preserved unusualCreation).1 o n hRead (by decide +kernel)
  · let o : RequestOptions String :=
      { challenge := "_-8="
        timeout := some 60000
        allowCredentials := some [⟨"public-key", "AQI=", none⟩]
        userVerification := some .required
        extra := [("zeta", .null)] }
    let n : RequestOptions Bytes :=
      { o with challenge := [255, 239], allowCredentials := some [⟨"public-key", [1, 2], none⟩] }
    have hRead : RequestOptions.form.decoder.Accepts unusualRequestValue o :=
      .text (Text.source unusualRequest) (by decide +kernel) (by decide +kernel)
    have hWritten : n.encode.toValue.canonical = rewrittenRequest := by decide +kernel
    exact hWritten ▸ (options_preserved unusualRequestValue).2 o n hRead (by decide +kernel)

end RemoteSigning.Ceremony
