import RemoteSigning.Ceremony.Options
import RemoteSigning.Proofs.Json.Orders

/-!
# Options as values and back

Whatever the options of a ceremony hold, reading their canonical value finds it again, as long as
what they carry along without looking into it is in canonical form itself and the algorithms are
numbers that JSON text can hold. Options that were read from a value are of that kind, whatever the
value was.
-/

namespace RemoteSigning.Ceremony

open Json

/-- If all that a list may hold is read from its canonical form, so is the list. -/
theorem reads_listValue {α : Type} {decoder : Decoder α} {write : α → Value} {l : List α}
    (h : ∀ a ∈ l, decoder.Reads (write a).canonical a) :
    (Decoder.list decoder).Reads (listValue write l).canonical l := by
  rw [listValue, Value.canonical, Value.canonicalItems_map]
  exact Decoder.reads_list h

theorem reads_strings (l : List String) :
    (Decoder.list .string).Reads (listValue .string l).canonical l :=
  reads_listValue fun s _ => Decoder.reads_string s

theorem AuthenticatorAttachment.reads (a : AuthenticatorAttachment) :
    (Decoder.choice choices).Reads (.string a.name) a :=
  Decoder.reads_choice (by cases a <;> rfl)

theorem ResidentKeyRequirement.reads (k : ResidentKeyRequirement) :
    (Decoder.choice choices).Reads (.string k.name) k :=
  Decoder.reads_choice (by cases k <;> rfl)

theorem UserVerification.reads (v : UserVerification) :
    (Decoder.choice choices).Reads (.string v.name) v :=
  Decoder.reads_choice (by cases v <;> rfl)

theorem AttestationConveyance.reads (a : AttestationConveyance) :
    (Decoder.choice choices).Reads (.string a.name) a :=
  Decoder.reads_choice (by cases a <;> rfl)

/-- The members have names and places of their own, so their order makes no difference. -/
theorem RelyingPartyEntity.orderless : form.Orderless := by
  refine Record.orderless_of_dropped rfl (by decide) (by decide) ?_
  simp only [form, List.pairwise_cons, List.forall_mem_cons, List.not_mem_nil, false_implies,
    implies_true, and_true, List.Pairwise.nil]
  exact Record.Field.apart (by intro a b r; rfl)

theorem RelyingPartyEntity.reads (r : RelyingPartyEntity) :
    form.decoder.Reads r.toValue.canonical r := by
  refine orderless.reads_declared ?_ (List.nil_subset _) ?_
  · rw [List.map_append]
    exact (Value.names_optional _ _ _).append (Value.names_optional _ _ _)
  · simp only [Value.canonicalMembers_append, Value.canonicalMembers_optional, Value.canonical,
      List.foldlM_append]
    rw [Record.foldlM_optional (by rfl) rfl fun s _ => Decoder.reads_string s, Except.ok_bind,
      Record.foldlM_optional (by rfl) rfl fun s _ => Decoder.reads_string s]

theorem UserEntity.orderless : form.Orderless := by
  refine Record.orderless_of_dropped rfl (by decide) (by decide) ?_
  simp only [form, List.pairwise_cons, List.forall_mem_cons, List.not_mem_nil, false_implies,
    implies_true, and_true, List.Pairwise.nil]
  and_intros <;> exact Record.Field.apart (by intro a b u; rfl)

/-- A user is read from the canonical form of what is written for it. -/
theorem UserEntity.reads (u : UserEntity String) :
    form.decoder.Reads (u.toValue .string).canonical u := by
  have hRequired : form.required = ["id"] := rfl
  refine orderless.reads_declared ?_ (by simp [hRequired]) ?_
  · rw [List.map_append, List.map_cons]
    exact ((Value.names_optional _ _ _).cons_cons _).append (Value.names_optional _ _ _)
  · simp only [Value.canonicalMembers_append, Value.canonicalMembers_optional,
      Value.canonicalMembers, Value.canonical, List.foldlM_append, List.foldlM_cons]
    rw [Record.readMember_mandatory (by rfl) (Decoder.reads_string u.id), Except.ok_bind,
      Record.foldlM_optional (by rfl) rfl fun s _ => Decoder.reads_string s, Except.ok_bind,
      Record.foldlM_optional (by rfl) rfl fun s _ => Decoder.reads_string s]

theorem KeyParameter.orderless : form.Orderless := by
  refine Record.orderless_of_dropped rfl (by decide) (by decide) ?_
  simp only [form, List.pairwise_cons, List.forall_mem_cons, List.not_mem_nil, false_implies,
    implies_true, and_true, List.Pairwise.nil]
  exact Record.Field.apart (by intro a b p; rfl)

/-- A key parameter is, if its algorithm fits in what is read. -/
theorem KeyParameter.reads {p : KeyParameter} (h : p.alg < 2 ^ 63) :
    form.decoder.Reads p.toValue.canonical p := by
  have hRequired : form.required = ["type", "alg"] := rfl
  refine orderless.reads_declared (List.Sublist.refl _) (by simp [hRequired]) ?_
  simp only [Value.canonicalMembers, Value.canonical, List.foldlM_cons, List.foldlM_nil]
  rw [Record.readMember_mandatory (by rfl) (Decoder.reads_string p.type), Except.ok_bind,
    Record.readMember_mandatory (by rfl) (Decoder.reads_i64 h), Except.ok_bind]
  rfl

theorem CredentialDescriptor.orderless : form.Orderless := by
  refine Record.orderless_of_dropped rfl (by decide) (by decide) ?_
  simp only [form, List.pairwise_cons, List.forall_mem_cons, List.not_mem_nil, false_implies,
    implies_true, and_true, List.Pairwise.nil]
  and_intros <;> exact Record.Field.apart (by intro a b d; rfl)

/-- A descriptor is read from the canonical form of what is written for it. -/
theorem CredentialDescriptor.reads (d : CredentialDescriptor String) :
    form.decoder.Reads (d.toValue .string).canonical d := by
  have hRequired : form.required = ["type", "id"] := rfl
  refine orderless.reads_declared ?_ (by simp [hRequired]) ?_
  · rw [List.map_cons, List.map_cons]
    exact ((Value.names_optional _ _ _).cons_cons _).cons_cons _
  · simp only [Value.canonicalMembers_optional, Value.canonicalMembers, Value.canonical,
      List.foldlM_cons]
    rw [Record.readMember_mandatory (by rfl) (Decoder.reads_string d.type), Except.ok_bind,
      Record.readMember_mandatory (by rfl) (Decoder.reads_string d.id), Except.ok_bind,
      Record.foldlM_optional (by rfl) rfl fun l _ => reads_strings l]

theorem AuthenticatorSelection.orderless : form.Orderless := by
  refine Record.orderless_of_dropped rfl (by decide) (by decide) ?_
  simp only [form, List.pairwise_cons, List.forall_mem_cons, List.not_mem_nil, false_implies,
    implies_true, and_true, List.Pairwise.nil]
  and_intros <;> exact Record.Field.apart (by intro a b s; rfl)

/-- A selection is read from the canonical form of what is written for it. -/
theorem AuthenticatorSelection.reads (s : AuthenticatorSelection) :
    form.decoder.Reads s.toValue.canonical s := by
  refine orderless.reads_declared ?_ (List.nil_subset _) ?_
  · simp only [List.map_append]
    exact (((Value.names_optional _ _ _).append (Value.names_optional _ _ _)).append
      (Value.names_optional _ _ _)).append (Value.names_optional _ _ _)
  · simp only [Value.canonicalMembers_append, Value.canonicalMembers_optional, Value.canonical,
      List.foldlM_append, bind_assoc]
    rw [Record.foldlM_optional (by rfl) rfl fun a _ => a.reads, Except.ok_bind,
      Record.foldlM_optional (by rfl) rfl fun k _ => k.reads, Except.ok_bind,
      Record.foldlM_optional (by rfl) rfl fun b _ => Decoder.reads_bool b, Except.ok_bind,
      Record.foldlM_optional (by rfl) rfl fun v _ => v.reads]

/-- Whether extensions are as reading leaves them. -/
def SettledExtensions (extensions : Option Value) : Prop :=
  ∀ v ∈ extensions, v ≠ .null ∧ v.IsCanonical

/-- Whether what options carry along, and their algorithms, are as reading leaves them. -/
structure CreationOptions.Settled (o : CreationOptions String) : Prop where
  extensions : SettledExtensions o.extensions
  extra : form.Carries o.extra
  algorithms : ∀ ps ∈ o.pubKeyCredParams, ∀ p ∈ ps, p.alg < 2 ^ 63

/-- Whether what options carry along is as reading leaves it. -/
structure RequestOptions.Settled (o : RequestOptions String) : Prop where
  extensions : SettledExtensions o.extensions
  extra : form.Carries o.extra

/-- Extensions that are settled are read as they are. -/
theorem SettledExtensions.reads {extensions : Option Value} (h : SettledExtensions extensions) :
    ∀ v ∈ extensions, Decoder.any.Reads (id v).canonical v := by
  intro v hv
  obtain ⟨hNull, hCanonical⟩ := h v hv
  rw [id, hCanonical.canonical_eq]
  exact Decoder.reads_any hNull hCanonical

/-- So have the members that are not declared, for they are kept under their names. -/
theorem CreationOptions.orderless : form.Orderless := by
  refine Record.orderless_of_kept rfl (by decide) (by decide) ?_ ?_ ?_
  · simp only [form, List.pairwise_cons, List.forall_mem_cons, List.not_mem_nil, false_implies,
      implies_true, and_true, List.Pairwise.nil]
    and_intros <;> exact Record.Field.apart (by intro a b o; rfl)
  · simp only [form, List.forall_mem_cons, List.not_mem_nil, false_implies, implies_true, and_true]
    and_intros <;> exact Record.Field.apartFrom_kept (by intro a k v o; rfl)
  · intro name v name' v' o hNames
    simp only [Value.insertMember_insertMember hNames]

theorem CreationOptions.names_members (o : CreationOptions String) :
    ((o.members .string).map (·.1)).Sublist form.names := by
  simp only [members, List.map_append, List.map_cons]
  exact (((((((Value.names_optional _ _ _).append (Value.names_optional _ _ _)).append
    ((Value.names_optional _ _ _).cons_cons _)).append (Value.names_optional _ _ _)).append
    (Value.names_optional _ _ _)).append (Value.names_optional _ _ _)).append
    (Value.names_optional _ _ _)).append (Value.names_optional _ _ _)

/-- Settled options are read from the canonical form of what is written for them. -/
theorem CreationOptions.Settled.reads {o : CreationOptions String} (h : o.Settled) :
    form.decoder.Reads o.toValue.canonical o := by
  have hRequired : form.required = ["challenge"] := rfl
  refine orderless.reads_canonical (h.extra.distinct orderless o.names_members) ?_ ?_
  · rw [hRequired]
    simp [members]
  have hExtra : o.extra.foldlM (form.readMember .value) { o with extra := [] } = .ok o :=
    Record.Carries.foldlM_kept (r := form) rfl (fun _ _ _ => rfl) h.extra
  have hAlgorithms : ∀ ps ∈ o.pubKeyCredParams, (Decoder.list KeyParameter.form.decoder).Reads
      (listValue KeyParameter.toValue ps).canonical ps := fun ps hps =>
    reads_listValue fun p hp => KeyParameter.reads (h.algorithms ps hps p hp)
  simp only [members, Value.canonicalMembers_append, Value.canonicalMembers_optional,
    Value.canonicalMembers, Value.canonical, h.extra.canonicalMembers_eq]
  -- The parts are taken off from the last to the first, with the record as it is before each.
  refine Record.foldlM_append_ok ?_ hExtra
  refine Record.foldlM_append_ok (y := { o with extensions := none, extra := [] }) ?_
    (Record.foldlM_optional_ok (by rfl) (by rfl) h.extensions.reads (by rfl))
  refine Record.foldlM_append_ok
    (y := { o with attestation := none, extensions := none, extra := [] }) ?_
    (Record.foldlM_optional_ok (by rfl) (by rfl) (fun a _ => a.reads) (by rfl))
  refine Record.foldlM_append_ok
    (y := { rp := o.rp, user := o.user, challenge := o.challenge,
            pubKeyCredParams := o.pubKeyCredParams, timeout := o.timeout,
            excludeCredentials := o.excludeCredentials }) ?_
    (Record.foldlM_optional_ok (by rfl) (by rfl) (fun s _ => s.reads) (by rfl))
  refine Record.foldlM_append_ok
    (y := { rp := o.rp, user := o.user, challenge := o.challenge,
            pubKeyCredParams := o.pubKeyCredParams, timeout := o.timeout }) ?_
    (Record.foldlM_optional_ok (by rfl) (by rfl)
      (fun l _ => reads_listValue fun d _ => d.reads) (by rfl))
  refine Record.foldlM_append_ok
    (y := { rp := o.rp, user := o.user, challenge := o.challenge,
            pubKeyCredParams := o.pubKeyCredParams }) ?_
    (Record.foldlM_optional_ok (by rfl) (by rfl) (fun n _ => Decoder.reads_u64 n) (by rfl))
  refine Record.foldlM_append_ok (y := { rp := o.rp, user := o.user, challenge := "" }) ?_ ?_
  · refine Record.foldlM_append_ok (y := { rp := o.rp, challenge := "" })
      (Record.foldlM_optional_ok (by rfl) (by rfl) (fun r _ => r.reads) (by rfl))
      (Record.foldlM_optional_ok (by rfl) (by rfl) (fun u _ => u.reads) (by rfl))
  · refine Record.foldlM_cons_ok (y := { rp := o.rp, user := o.user, challenge := o.challenge })
      (Record.readMember_mandatory_ok (by rfl) (Decoder.reads_string o.challenge) (by rfl))
      (Record.foldlM_optional_ok (by rfl) (by rfl) hAlgorithms (by rfl))

theorem RequestOptions.orderless : form.Orderless := by
  refine Record.orderless_of_kept rfl (by decide) (by decide) ?_ ?_ ?_
  · simp only [form, List.pairwise_cons, List.forall_mem_cons, List.not_mem_nil, false_implies,
      implies_true, and_true, List.Pairwise.nil]
    and_intros <;> exact Record.Field.apart (by intro a b o; rfl)
  · simp only [form, List.forall_mem_cons, List.not_mem_nil, false_implies, implies_true, and_true]
    and_intros <;> exact Record.Field.apartFrom_kept (by intro a k v o; rfl)
  · intro name v name' v' o hNames
    simp only [Value.insertMember_insertMember hNames]

theorem RequestOptions.names_members (o : RequestOptions String) :
    ((o.members .string).map (·.1)).Sublist form.names := by
  simp only [members, List.map_append, List.map_cons]
  exact (((((Value.names_optional _ _ _).cons_cons _).append (Value.names_optional _ _ _)).append
    (Value.names_optional _ _ _)).append (Value.names_optional _ _ _)).append
    (Value.names_optional _ _ _)

/-- The same of the options for a request. -/
theorem RequestOptions.Settled.reads {o : RequestOptions String} (h : o.Settled) :
    form.decoder.Reads o.toValue.canonical o := by
  have hRequired : form.required = ["challenge"] := rfl
  refine orderless.reads_canonical (h.extra.distinct orderless o.names_members) ?_ ?_
  · rw [hRequired]
    simp [members]
  have hExtra : o.extra.foldlM (form.readMember .value) { o with extra := [] } = .ok o :=
    Record.Carries.foldlM_kept (r := form) rfl (fun _ _ _ => rfl) h.extra
  simp only [members, Value.canonicalMembers_append, Value.canonicalMembers_optional,
    Value.canonicalMembers, Value.canonical, h.extra.canonicalMembers_eq]
  refine Record.foldlM_append_ok ?_ hExtra
  refine Record.foldlM_append_ok (y := { o with extensions := none, extra := [] }) ?_
    (Record.foldlM_optional_ok (by rfl) (by rfl) h.extensions.reads (by rfl))
  refine Record.foldlM_append_ok
    (y := { o with userVerification := none, extensions := none, extra := [] }) ?_
    (Record.foldlM_optional_ok (by rfl) (by rfl) (fun v _ => v.reads) (by rfl))
  refine Record.foldlM_append_ok
    (y := { challenge := o.challenge, timeout := o.timeout, rpId := o.rpId }) ?_
    (Record.foldlM_optional_ok (by rfl) (by rfl)
      (fun l _ => reads_listValue fun d _ => d.reads) (by rfl))
  refine Record.foldlM_append_ok (y := { challenge := o.challenge, timeout := o.timeout }) ?_
    (Record.foldlM_optional_ok (by rfl) (by rfl) (fun s _ => Decoder.reads_string s) (by rfl))
  refine Record.foldlM_cons_ok (y := { challenge := o.challenge })
    (Record.readMember_mandatory_ok (by rfl) (Decoder.reads_string o.challenge) (by rfl))
    (Record.foldlM_optional_ok (by rfl) (by rfl) (fun n _ => Decoder.reads_u64 n) (by rfl))

variable {place : Place} {d : Document}

/-- Extensions that were read are settled. -/
theorem settledExtensions_of_any {extensions : Option Value}
    (hPlace : place.Admits 0) (h : Decoder.any.option place d = .ok extensions) :
    SettledExtensions extensions := by
  rintro v rfl
  obtain ⟨hNull, hAny⟩ := Decoder.of_option h
  have hValue : d.value place = .ok v := Except.mapError_eq_ok.mp hAny
  exact ⟨ne_null_of_value hNull hValue, (isCanonical_of_value d hPlace hValue).1⟩

/-- An algorithm that was read fits in 64 bits. -/
theorem KeyParameter.alg_lt {p : KeyParameter} (h : form.decoder place d = .ok p) :
    p.alg < 2 ^ 63 := by
  refine Record.keeps_decoder (Q := fun _ => True) (P := fun p => p.alg < 2 ^ 63)
    (fun _ _ => Record.keepsUndeclared_dropped rfl) (fun inner _ => ?_) (by decide)
    (fun _ _ => trivial) h
  simp only [form, List.forall_mem_cons, List.not_mem_nil, false_implies, implies_true, and_true]
  exact ⟨Record.Field.keeps_reading fun _ _ _ _ _ hp => hp,
    Record.Field.keeps_reading fun _ _ _ _ hAlg _ => Decoder.lt_of_i64 hAlg⟩

/-- Options that were read, from wherever, are settled. -/
theorem CreationOptions.settled_of_decoder {o : CreationOptions String}
    (h : form.decoder place d = .ok o) : o.Settled := by
  refine Record.keeps_decoder (Q := fun _ => True) (P := CreationOptions.Settled)
    (fun inner hEnter => ?_) (fun inner hEnter => ?_) ?_ (fun _ _ => trivial) h
  · refine Record.keepsUndeclared_kept rfl (Place.admits_of_enter hEnter).1 ?_
    intro name v x hName hValue hx
    exact ⟨hx.extensions, hx.extra.insertMember hName hValue, hx.algorithms⟩
  · have hRoom := (Place.admits_of_enter hEnter).1
    simp only [form, List.forall_mem_cons, List.not_mem_nil, false_implies, implies_true, and_true]
    refine ⟨?_, ?_, ?_, ?params, ?_, ?_, ?_, ?_, ?extensions⟩
    case params =>
      refine Record.Field.keeps_reading fun d a x _ hRead hx => ⟨hx.extensions, hx.extra, ?_⟩
      rintro ps rfl
      exact Decoder.forall_mem_list (fun _ _ _ => KeyParameter.alg_lt) (Decoder.of_option hRead).2
    case extensions =>
      exact Record.Field.keeps_reading fun d a x _ hRead hx =>
        ⟨settledExtensions_of_any hRoom hRead, hx.extra, hx.algorithms⟩
    all_goals
      exact Record.Field.keeps_reading fun _ _ _ _ _ hx => ⟨hx.extensions, hx.extra, hx.algorithms⟩
  · exact ⟨by simp [SettledExtensions, form], Record.carries_nil form, by simp [form]⟩

/-- Options that were read are settled. -/
theorem RequestOptions.settled_of_decoder {o : RequestOptions String}
    (h : form.decoder place d = .ok o) : o.Settled := by
  refine Record.keeps_decoder (Q := fun _ => True) (P := RequestOptions.Settled)
    (fun inner hEnter => ?_) (fun inner hEnter => ?_) ?_ (fun _ _ => trivial) h
  · refine Record.keepsUndeclared_kept rfl (Place.admits_of_enter hEnter).1 ?_
    intro name v x hName hValue hx
    exact ⟨hx.extensions, hx.extra.insertMember hName hValue⟩
  · have hRoom := (Place.admits_of_enter hEnter).1
    simp only [form, List.forall_mem_cons, List.not_mem_nil, false_implies, implies_true, and_true]
    refine ⟨?_, ?_, ?_, ?_, ?_, ?extensions⟩
    case extensions =>
      exact Record.Field.keeps_reading fun d a x _ hRead hx =>
        ⟨settledExtensions_of_any hRoom hRead, hx.extra⟩
    all_goals exact Record.Field.keeps_reading fun _ _ _ _ _ hx => ⟨hx.extensions, hx.extra⟩
  · exact ⟨by simp [SettledExtensions, form], Record.carries_nil form⟩

end RemoteSigning.Ceremony
