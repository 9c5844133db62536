import RemoteSigning.Proofs.Json.Laws

/-!
# Records written again

Reading a record member by member makes what is written for it obey the law of each member. The laws
are the same whether the record is read out of text or out of memory, and whether it is given as an
object, with its members in any order, or as an array.
-/

namespace RemoteSigning.Json

variable {ρ α : Type}

namespace Record

variable {r : Record ρ} {write : ρ → Value} {laws : List Law}

/-- Reads what stands under a name, whether it is declared or not. -/
def readEntry (r : Record ρ) (place : Place) (name : String) (d : Document) (x : ρ) :
    Except Error ρ :=
  match r.field? name with
  | some f => f.read place d x
  | none => readUndeclared r.undeclared place name d x

/-- The first of some members is read as an entry, and the others after it. -/
theorem readMembers_next {place : Place} {seen : List String} {x y : ρ} {d : Document}
    {name? : Except Fault String} {rest : Members} {vs : List (String × Value)}
    (hPlain : ∀ f ∈ r.fields, f.aliases = [])
    (hValues : (Members.next name? d rest).values place = .ok vs)
    (h : r.readMembers place seen x (.next name? d rest) = .ok y) :
    ∃ name v vs' z seen', vs = (name, v) :: vs' ∧ d.value place = .ok v ∧
      rest.values place = .ok vs' ∧ r.readEntry place name d x = .ok z ∧
      r.readMembers place seen' z rest = .ok y ∧ ∀ n ∈ seen', n = name ∨ n ∈ seen := by
  simp only [Members.values, readMembers, liftFault, Except.bind_eq_ok, Except.mapError_eq_ok,
    Except.pure_eq_ok, Except.ok.injEq] at hValues h
  obtain ⟨name, rfl, v, hValue, vs', hRest, rfl⟩ := hValues
  obtain ⟨_, ⟨⟩, h⟩ := h
  refine ⟨name, v, vs', ?_⟩
  split at h
  · rename_i f hField
    split at h
    · cases h
    · obtain ⟨z, hRead, hLater⟩ := Except.bind_eq_ok.mp h
      have hEntry : r.readEntry place name d x = .ok z := by
        simp only [readEntry, hField, hRead]
      refine ⟨z, _, rfl, hValue, hRest, hEntry, hLater, fun n hn => ?_⟩
      rw [name_eq_of_field? hPlain hField] at hn
      exact List.mem_cons.mp hn
  · rename_i hField
    obtain ⟨z, hRead, hLater⟩ := Except.bind_eq_ok.mp h
    have hEntry : r.readEntry place name d x = .ok z := by
      simp only [readEntry, hField, hRead]
    exact ⟨z, seen, rfl, hValue, hRest, hEntry, hLater, fun n hn => .inr hn⟩

/-- Without a further member the object ends, and has all members that must be there. -/
theorem readMembers_end {place : Place} {seen : List String} {x y : ρ} {ms : Members}
    (hEnd : ∀ name? d rest, ms = .next name? d rest → False)
    (h : r.readMembers place seen x ms = .ok y) :
    ms = .closed ∧ (∀ f ∈ r.fields, f.required → f.name ∈ seen) ∧ y = x := by
  cases ms with
  | closed =>
      simp only [readMembers, Except.bind_eq_ok, Except.pure_eq_ok, Except.ok.injEq] at h
      obtain ⟨_, hComplete, rfl⟩ := h
      exact ⟨rfl, checkComplete_eq_ok.mp hComplete, rfl⟩
  | next name? d rest => exact (hEnd name? d rest rfl).elim
  | stop | nameless | brokenName => cases h

theorem lookup_reverse_cons (name : String) (v : Value) (vs : List (String × Value))
    (other : String) :
    ((name, v) :: vs).reverse.lookup other =
      (vs.reverse.lookup other).or (if other = name then some v else none) := by
  rw [List.reverse_cons, List.lookup_append, Value.lookup_cons, List.lookup_nil]

/-- If every entry decides what is written under its own name, and nothing else, then the last entry
of a name decides what is written under it in the end. -/
theorem readMembers_decides (written : ρ → String → Option Value)
    {P : String → Value → Option Value → Prop} (hPlain : ∀ f ∈ r.fields, f.aliases = [])
    (hStep : ∀ {place name d v x y}, place.Admits 0 → Document.value place d = .ok v →
      r.readEntry place name d x = .ok y →
      P name v (written y name) ∧ ∀ other, other ≠ name → written y other = written x other)
    {place : Place} (hPlace : place.Admits 0) {ms : Members} {seen : List String} {x y : ρ}
    {vs : List (String × Value)} (hValues : ms.values place = .ok vs)
    (hRead : r.readMembers place seen x ms = .ok y) (name : String) :
    (vs.reverse.lookup name = none → written y name = written x name) ∧
      ∀ v, vs.reverse.lookup name = some v → P name v (written y name) := by
  induction ms using Members.documents.induct generalizing seen x vs with
  | case1 first? d rest ih =>
      obtain ⟨first, v, vs, z, seen, rfl, hValue, hRest, hEntry, hLater, -⟩ :=
        readMembers_next hPlain hValues hRead
      obtain ⟨hHere, hElsewhere⟩ := hStep hPlace hValue hEntry
      obtain ⟨hNone, hSome⟩ := ih hRest hLater
      rw [lookup_reverse_cons]
      cases hLookup : vs.reverse.lookup name with
      | some w =>
          rw [Option.some_or]
          exact ⟨nofun, fun v hv => Option.some.inj hv ▸ hSome w hLookup⟩
      | none =>
          rw [Option.none_or, hNone hLookup]
          split_ifs with hName
          · subst hName
            exact ⟨nofun, fun w hw => Option.some.inj hw ▸ hHere⟩
          · exact ⟨fun _ => hElsewhere name hName, nofun⟩
  | case2 ms hEnd =>
      obtain ⟨rfl, -, rfl⟩ := readMembers_end hEnd hRead
      cases hValues
      exact ⟨fun _ => rfl, nofun⟩

/-- An object that is read has all members that must be there. -/
theorem readMembers_complete (hPlain : ∀ f ∈ r.fields, f.aliases = []) {place : Place}
    {ms : Members} {seen : List String} {x y : ρ} {vs : List (String × Value)}
    (hValues : ms.values place = .ok vs) (hRead : r.readMembers place seen x ms = .ok y)
    {f : Field ρ} (hf : f ∈ r.fields) (hRequired : f.required) :
    f.name ∈ seen ∨ (vs.reverse.lookup f.name).isSome := by
  induction ms using Members.documents.induct generalizing seen x vs with
  | case1 first? d rest ih =>
      obtain ⟨first, v, vs, z, seen', rfl, -, hRest, -, hLater, hSeen⟩ :=
        readMembers_next hPlain hValues hRead
      rw [lookup_reverse_cons, Option.isSome_or, Bool.or_eq_true]
      rcases ih hRest hLater with hBefore | hThere
      · rcases hSeen _ hBefore with hHere | hBefore
        · exact .inr (.inr (by rw [if_pos hHere]; rfl))
        · exact .inl hBefore
      · exact .inr (.inl hThere)
  | case2 ms hEnd =>
      obtain ⟨-, hComplete, -⟩ := readMembers_end hEnd hRead
      exact .inl (hComplete f hf hRequired)

theorem exists_of_forall₂ {β γ : Type} {R : β → γ → Prop} {bs : List β} {cs : List γ}
    (h : List.Forall₂ R bs cs) :
    (∀ b ∈ bs, ∃ c ∈ cs, R b c) ∧ ∀ c ∈ cs, ∃ b ∈ bs, R b c := by
  induction h with
  | nil => exact ⟨List.forall_mem_nil _, List.forall_mem_nil _⟩
  | cons hFirst _ ih =>
      constructor
      · refine List.forall_mem_cons.mpr ⟨⟨_, List.mem_cons_self, hFirst⟩, fun b hb => ?_⟩
        exact (ih.1 b hb).imp fun c hc => ⟨List.mem_cons_of_mem _ hc.1, hc.2⟩
      · refine List.forall_mem_cons.mpr ⟨⟨_, List.mem_cons_self, hFirst⟩, fun c hc => ?_⟩
        exact (ih.2 c hc).imp fun b hb => ⟨List.mem_cons_of_mem _ hb.1, hb.2⟩

/-- What is written for a record under a name. -/
def written (write : ρ → Value) (x : ρ) (name : String) : Option Value :=
  ((write x).member? name).map Value.canonical

/-- Whether reading a declared member makes what is written for the record obey a law. -/
structure Field.Obeys (f : Field ρ) (r : Record ρ) (write : ρ → Value) (l : Law) : Prop where
  name_eq : f.name = l.name
  fills {place : Place} {d : Document} {v : Value} {x y : ρ} : place.Admits 0 →
    d.value place = .ok v → f.read place d x = .ok y → l.Holds (some v) (written write y l.name)
  leaves {place : Place} {d : Document} {x y : ρ} : f.read place d x = .ok y →
    ∀ other, other ≠ l.name → written write y other = written write x other
  absent : f.required = false ∨ f.omissible = true → l.Holds none (written write r.empty l.name)

/-- Whether a record obeys laws, one a declared member, and nothing else is written for it. -/
structure Lawful (r : Record ρ) (write : ρ → Value) (laws : List Law) : Prop where
  plain : ∀ f ∈ r.fields, f.aliases = []
  distinct : r.names.Nodup
  fields : List.Forall₂ (fun f l => f.Obeys r write l) r.fields laws
  undeclared {place : Place} {name : String} {d : Document} {x y : ρ} :
    readUndeclared r.undeclared place name d x = .ok y → write y = write x
  object : ∀ x, ∃ members, write x = .object members ∧ (members.map (·.1)).Sublist r.names

/-- By induction on the members that are still to be read. -/
theorem readItems_obeys {place : Place} (hPlace : place.Admits 0)
    {total : Nat} {fields : List (Field ρ)} {left : List Law}
    (hFields : List.Forall₂ (fun f l => f.Obeys r write l) fields left)
    (hDistinct : (left.map (·.name)).Nodup) {index : Nat} {x y : ρ} {items : Items}
    {vs : List Value} (hUnread : ∀ l ∈ left, written write x l.name = written write r.empty l.name)
    (hValues : items.values place = .ok vs)
    (hRead : r.readItems place total index x fields items = .ok y) :
    (∀ l ∈ left, l.Holds (((left.map (·.name)).zip vs).lookup l.name) (written write y l.name)) ∧
      ∀ other, other ∉ left.map (·.name) → written write y other = written write x other := by
  induction hFields generalizing index x items vs with
  | nil =>
      simp only [Record.readItems, Except.bind_eq_ok, Except.pure_eq_ok, Except.ok.injEq] at hRead
      obtain ⟨-, -, rfl⟩ := hRead
      exact ⟨List.forall_mem_nil _, fun _ _ => rfl⟩
  | @cons f l fields left hObeys _ ih =>
      obtain ⟨hNew, hRest⟩ := List.nodup_cons.mp hDistinct
      obtain ⟨hFirst, hLater⟩ := List.forall_mem_cons.mp hUnread
      cases items with
      | stop why => cases hRead
      | closed =>
          cases hValues
          simp only [Record.readItems] at hRead
          split at hRead
          · rename_i hOmissible
            obtain ⟨hHolds, hLeaves⟩ := ih hRest hLater rfl hRead
            rw [List.zip_nil_right] at hHolds
            rw [List.zip_nil_right, List.forall_mem_cons, hLeaves l.name hNew, hFirst]
            refine ⟨⟨hObeys.absent (.inr hOmissible), hHolds⟩, fun other hOther => ?_⟩
            exact hLeaves other fun hLeft => hOther (List.mem_cons_of_mem _ hLeft)
          · cases hRead
      | next item rest =>
          simp only [Items.values, Record.readItems, Except.bind_eq_ok, Except.pure_eq_ok,
            Except.ok.injEq] at hValues hRead
          obtain ⟨v, hValue, vs, hValues, rfl⟩ := hValues
          obtain ⟨z, hItem, hRead⟩ := hRead
          have hElsewhere (l' : Law) (hl' : l' ∈ left) : l'.name ≠ l.name := fun hSame =>
            hNew (List.mem_map.mpr ⟨l', hl', hSame⟩)
          obtain ⟨hHolds, hLeaves⟩ := ih hRest
            (fun l' hl' => (hObeys.leaves hItem _ (hElsewhere l' hl')).trans (hLater l' hl'))
            hValues hRead
          rw [List.map_cons, List.zip_cons_cons]
          refine ⟨List.forall_mem_cons.mpr ⟨?_, fun l' hl' => ?_⟩, fun other hOther => ?_⟩
          · rw [Value.lookup_cons, if_pos rfl, hLeaves l.name hNew]
            exact hObeys.fills hPlace hValue hItem
          · rw [Value.lookup_cons, if_neg (hElsewhere l' hl')]
            exact hHolds l' hl'
          · obtain ⟨hHere, hLeft⟩ := not_or.mp (mt List.mem_cons.mpr hOther)
            exact (hLeaves other hLeft).trans (hObeys.leaves hItem other hHere)

namespace Lawful

/-- There is one law for each declared member, in the same order. -/
theorem names_eq (h : r.Lawful write laws) : laws.map (·.name) = r.names := by
  have hNames : List.Forall₂ Eq r.names (laws.map (·.name)) :=
    List.forall₂_map_left_iff.mpr <| List.forall₂_map_right_iff.mpr <|
      h.fields.imp fun _ _ hObeys => hObeys.name_eq
  rw [List.forall₂_eq_eq_eq] at hNames
  exact hNames.symm

theorem distinct_laws (h : r.Lawful write laws) : (laws.map (·.name)).Nodup :=
  h.names_eq ▸ h.distinct

/-- Each declared member has a law that it obeys. -/
theorem law (h : r.Lawful write laws) : ∀ f ∈ r.fields, ∃ l ∈ laws, f.Obeys r write l :=
  (exists_of_forall₂ h.fields).1

/-- Each law is about a declared member. -/
theorem field (h : r.Lawful write laws) : ∀ l ∈ laws, ∃ f ∈ r.fields, f.Obeys r write l :=
  (exists_of_forall₂ h.fields).2

/-- Reading an entry makes the laws of its name hold and changes nothing under other names. -/
theorem readEntry (h : r.Lawful write laws) {place : Place} {name : String} {d : Document}
    {v : Value} {x y : ρ} (hPlace : place.Admits 0) (hValue : d.value place = .ok v)
    (hRead : r.readEntry place name d x = .ok y) :
    (∀ l ∈ laws, l.name = name → l.Holds (some v) (written write y name)) ∧
      ∀ other, other ≠ name → written write y other = written write x other := by
  unfold Record.readEntry at hRead
  split at hRead
  · rename_i f hField
    obtain ⟨l, hl, hObeys⟩ := h.law f (List.mem_of_find?_eq_some hField)
    obtain rfl : l.name = name := hObeys.name_eq.symm.trans (name_eq_of_field? h.plain hField)
    refine ⟨fun l' hl' hName => ?_, hObeys.leaves hRead⟩
    obtain rfl := List.inj_on_of_nodup_map h.distinct_laws hl' hl hName
    exact hObeys.fills hPlace hValue hRead
  · rename_i hField
    refine ⟨fun l hl hName => ?_, fun other _ => ?_⟩
    · obtain ⟨f, hf, hObeys⟩ := h.field l hl
      exact absurd (hObeys.name_eq.trans hName) (field?_eq_none hField hf)
    · rw [written, written, h.undeclared hRead]

/-- What was read, from wherever, is written as the laws say. -/
theorem holds (h : r.Lawful write laws) {place : Place} {d : Document} {v : Value} {x : ρ}
    (hValue : d.value place = .ok v) (hRead : r.decoder place d = .ok x) :
    ∀ l ∈ laws,
      l.Holds ((membersGiven (laws.map (·.name)) v).lookup l.name) (written write x l.name) := by
  intro l hl
  unfold decoder at hRead
  split at hRead
  · simp only [liftFault, Except.bind_eq_ok, Except.mapError_eq_ok] at hRead
    obtain ⟨inner, hEnter, hRead⟩ := hRead
    obtain ⟨hPlace, vs, hValues, rfl⟩ := Document.values_of_object hValue hEnter
    obtain ⟨hNone, hSome⟩ := readMembers_decides (written write)
      (P := fun name v w? => ∀ l ∈ laws, l.name = name → l.Holds (some v) w?) h.plain h.readEntry
      hPlace hValues hRead l.name
    rw [membersGiven, Value.lookup_sortMembers]
    cases hLookup : vs.reverse.lookup l.name with
    | some v => exact hSome v hLookup l hl rfl
    | none =>
        obtain ⟨f, hf, hObeys⟩ := h.field l hl
        rw [hNone hLookup]
        refine hObeys.absent (.inl (Bool.eq_false_iff.mpr fun hRequired => ?_))
        have hThere := readMembers_complete h.plain hValues hRead hf hRequired
        simp [hObeys.name_eq, hLookup] at hThere
  · simp only [liftFault, Except.bind_eq_ok, Except.mapError_eq_ok] at hRead
    obtain ⟨inner, hEnter, hRead⟩ := hRead
    obtain ⟨hPlace, vs, hValues, rfl⟩ := Document.values_of_array hValue hEnter
    exact (readItems_obeys hPlace h.fields h.distinct_laws (fun _ _ => rfl) hValues hRead).1 l hl
  · cases hRead

/-- Nothing is written under a name without a law. -/
theorem written_eq_none (h : r.Lawful write laws) (x : ρ) {name : String}
    (hName : name ∉ laws.map (·.name)) : written write x name = none := by
  obtain ⟨members, hObject, hNames⟩ := h.object x
  have hAbsent : name ∉ members.map (·.1) := fun hm => hName (h.names_eq ▸ hNames.subset hm)
  rw [written, hObject, Value.member?, Value.lookup_eq_none hAbsent, Option.map_none]

/-- Nothing is written for a record under a name under which nothing was given. -/
theorem isSome_given (h : r.Lawful write laws) {place : Place} {d : Document} {v : Value} {x : ρ}
    (hValue : d.value place = .ok v) (hRead : r.decoder place d = .ok x) {name : String}
    (hSome : (written write x name).isSome) :
    ((membersGiven (laws.map (·.name)) v).lookup name).isSome := by
  by_cases hName : name ∈ laws.map (·.name)
  · obtain ⟨l, hl, rfl⟩ := List.mem_map.mp hName
    exact (h.holds hValue hRead l hl).isSome hSome
  · rw [h.written_eq_none x hName] at hSome
    cases hSome

/-- Sorting what is written changes nothing under any name. -/
theorem member?_canonical (h : r.Lawful write laws) (x : ρ) (name : String) :
    (write x).canonical.member? name = written write x name := by
  obtain ⟨members, hObject, hNames⟩ := h.object x
  rw [written, hObject, Value.member?_canonical (hNames.nodup h.distinct), Value.member?]

/-- A record that obeys its laws is rewritten by them. -/
theorem rewrites (h : r.Lawful write laws) : r.decoder.Rewrites write (Rewritten laws) := by
  intro place d v x _ hValue hRead
  refine ⟨?_, fun l hl => ?_, fun name hSome => ?_⟩
  · obtain ⟨members, hObject, -⟩ := h.object x
    exact ⟨_, by rw [hObject, Value.canonical]⟩
  · rw [h.member?_canonical]
    exact h.holds hValue hRead l hl
  · rw [h.member?_canonical] at hSome
    exact h.isSome_given hValue hRead hSome

end Lawful

variable {decoder : Decoder α} {value : α → Value} {rel : Value → Value → Prop} {name : String}

/-- A mandatory field obeys the law of its decoder if it is written where it is stored and nowhere
else. -/
theorem Field.obeys_mandatory {store : α → ρ → ρ} (hDecoder : decoder.Rewrites value rel)
    (hStore : ∀ a x, (write (store a x)).member? name = some (value a))
    (hLeaves : ∀ a x other, other ≠ name →
      (write (store a x)).member? other = (write x).member? other) :
    (Field.mandatory name decoder store).Obeys r write ⟨name, false, rel⟩ where
  name_eq := rfl
  fills hPlace hValue hRead := by
    simp only [Field.mandatory, Field.reading, Except.bind_eq_ok, Except.pure_eq_ok,
      Except.ok.injEq] at hRead
    obtain ⟨a, hDecoded, rfl⟩ := hRead
    rw [Law.Holds, if_neg (by simp), written, hStore]
    exact ⟨_, rfl, _, rfl, hDecoder hPlace hValue hDecoded⟩
  leaves hRead other hOther := by
    simp only [Field.mandatory, Field.reading, Except.bind_eq_ok, Except.pure_eq_ok,
      Except.ok.injEq] at hRead
    obtain ⟨a, -, rfl⟩ := hRead
    rw [written, written, hLeaves a _ other hOther]
  absent h := by rcases h with h | h <;> cases h

/-- So does a field that may be absent, if it is not written then. -/
theorem Field.obeys_optional {store : Option α → ρ → ρ} (hDecoder : decoder.Rewrites value rel)
    (hStore : ∀ a? x, (write (store a? x)).member? name = a?.map value)
    (hLeaves : ∀ a? x other, other ≠ name →
      (write (store a? x)).member? other = (write x).member? other)
    (hAbsent : (write r.empty).member? name = none) :
    (Field.optional name decoder store).Obeys r write ⟨name, true, rel⟩ where
  name_eq := rfl
  fills {place d v x y} hPlace hValue hRead := by
    simp only [Field.optional, Field.defaulted, Field.reading, Except.bind_eq_ok,
      Except.pure_eq_ok, Except.ok.injEq] at hRead
    obtain ⟨a?, hDecoded, rfl⟩ := hRead
    rw [written, hStore]
    cases a? with
    | none =>
        obtain rfl := Decoder.null_of_option hDecoded
        cases hValue
        rw [Law.Holds, if_pos (by simp)]
        rfl
    | some a =>
        obtain ⟨hNull, hDecoded⟩ := Decoder.of_option hDecoded
        have hThere := ne_null_of_value hNull hValue
        rw [Law.Holds, if_neg (by simpa using hThere)]
        exact ⟨v, rfl, _, rfl, hDecoder hPlace hValue hDecoded⟩
  leaves hRead other hOther := by
    simp only [Field.optional, Field.defaulted, Field.reading, Except.bind_eq_ok,
      Except.pure_eq_ok, Except.ok.injEq] at hRead
    obtain ⟨a?, -, rfl⟩ := hRead
    rw [written, written, hLeaves a? _ other hOther]
  absent _ := by
    rw [Law.Holds, if_pos (by simp), written, hAbsent, Option.map_none]

/-- Members that are skipped leave the record as it is. -/
theorem eq_of_dropped (hDropped : r.undeclared = .dropped) {place : Place} {name : String}
    {d : Document} {x y : ρ} (h : readUndeclared r.undeclared place name d x = .ok y) : y = x := by
  rw [hDropped, readUndeclared] at h
  split at h
  · cases h
  · exact (Except.ok.inj h).symm

/-- Members that are not skipped are stored with all that stands in them. -/
theorem exists_of_kept {store : String → Value → ρ → ρ} (hKept : r.undeclared = .kept store)
    {place : Place} {name : String} {d : Document} {x y : ρ}
    (h : readUndeclared r.undeclared place name d x = .ok y) :
    ∃ v, d.value place = .ok v ∧ y = store name v x := by
  simp only [hKept, readUndeclared, Decoder.any, liftFault, Except.bind_eq_ok,
    Except.mapError_eq_ok, Except.pure_eq_ok, Except.ok.injEq] at h
  obtain ⟨v, hValue, rfl⟩ := h
  exact ⟨v, hValue, rfl⟩

/-- A record that keeps undeclared members is read from objects only. -/
theorem object_of_kept {store : String → Value → ρ → ρ} (hKept : r.undeclared = .kept store)
    {place : Place} {d : Document} {x : ρ} (hRead : r.decoder place d = .ok x) :
    ∃ ms inner, d = .object ms ∧ place.enter = .ok inner ∧
      r.readMembers inner [] r.empty ms = .ok x := by
  unfold decoder at hRead
  split at hRead
  · simp only [liftFault, Except.bind_eq_ok, Except.mapError_eq_ok] at hRead
    obtain ⟨inner, hEnter, hRead⟩ := hRead
    exact ⟨_, inner, rfl, hEnter, hRead⟩
  · rename_i hDropped
    cases hKept.symm.trans hDropped
  · cases hRead

/-- Under a name that is not declared stands what was given under it. -/
theorem lookup_kept {store : String → Value → ρ → ρ} (hKept : r.undeclared = .kept store)
    (hPlain : ∀ f ∈ r.fields, f.aliases = []) (extra : ρ → List (String × Value))
    (hStore : ∀ name v x, extra (store name v x) = Value.insertMember name v (extra x))
    (hFields : ∀ place members, ∀ f ∈ r.fields,
      f.Keeps place (fun _ => True) (fun x => extra x = members))
    (hEmpty : extra r.empty = []) {place : Place} {d : Document} {v : Value} {x : ρ}
    (hValue : d.value place = .ok v) (hRead : r.decoder place d = .ok x) {name : String}
    (hName : r.field? name = none) : (extra x).lookup name = v.member? name := by
  have hStep {place : Place} {name : String} {d : Document} {v : Value} {x y : ρ}
      (_ : place.Admits 0) (hValue : d.value place = .ok v)
      (hEntry : r.readEntry place name d x = .ok y) :
      (r.field? name = none → (extra y).lookup name = some v) ∧
        ∀ other, other ≠ name → (extra y).lookup other = (extra x).lookup other := by
    unfold readEntry at hEntry
    split at hEntry
    · rename_i f hField
      rw [hFields _ _ f (List.mem_of_find?_eq_some hField) d x y trivial rfl hEntry]
      exact ⟨fun hNone => absurd (hField.symm.trans hNone) nofun, fun _ _ => rfl⟩
    · obtain ⟨w, hSame, rfl⟩ := exists_of_kept hKept hEntry
      obtain rfl := Except.ok.inj (hValue.symm.trans hSame)
      rw [hStore]
      refine ⟨fun _ => ?_, fun other hOther => ?_⟩
      · rw [Value.lookup_insertMember, if_pos rfl]
      · rw [Value.lookup_insertMember, if_neg hOther]
  obtain ⟨ms, inner, rfl, hEnter, hMembers⟩ := object_of_kept hKept hRead
  obtain ⟨hPlace, vs, hValues, rfl⟩ := Document.values_of_object hValue hEnter
  obtain ⟨hNone, hSome⟩ := readMembers_decides (fun x name => (extra x).lookup name)
    (P := fun name v w? => r.field? name = none → w? = some v) hPlain hStep
    hPlace hValues hMembers name
  rw [Value.member?, Value.lookup_sortMembers]
  cases hLookup : vs.reverse.lookup name with
  | none => exact (hNone hLookup).trans (by rw [hEmpty, List.lookup_nil])
  | some w => exact hSome w hLookup hName

/-- A record that carries members along, written with them behind the declared ones. -/
theorem Lawful.preserves (h : r.Lawful write laws) {store : String → Value → ρ → ρ}
    (hKept : r.undeclared = .kept store) (hOrderless : r.Orderless) {place : Place} {d : Document}
    {v : Value} {x : ρ} (hValue : d.value place = .ok v) (hRead : r.decoder place d = .ok x)
    {declared extra : List (String × Value)} (hDeclared : write x = .object declared)
    (hExtra : r.Carries extra)
    (hSame : ∀ name, r.field? name = none → extra.lookup name = v.member? name) :
    Preserved laws v (Value.object (declared ++ extra)).canonical := by
  obtain ⟨ms, inner, rfl, hEnter, -⟩ := object_of_kept hKept hRead
  obtain ⟨-, vs, -, rfl⟩ := Document.values_of_object hValue hEnter
  obtain ⟨members, hObject, hNames⟩ := h.object x
  obtain rfl : members = declared := Value.object.inj (hObject.symm.trans hDeclared)
  have hMember (name : String) : (Value.object (members ++ extra)).canonical.member? name =
      (written write x name).or (extra.lookup name) := by
    rw [Value.member?_canonical (hExtra.distinct hOrderless hNames), List.lookup_append,
      Option.map_or, ← Value.lookup_canonicalMembers extra, hExtra.canonicalMembers_eq, written,
      hDeclared, Value.member?]
  refine .of_laws h.distinct_laws ⟨_, rfl⟩ (fun l hl => ?_) (fun name hName => ?_)
  · have hOwn : l.name ∉ extra.map (·.1) := by
      intro hName
      obtain ⟨m, hm, hSame⟩ := List.mem_map.mp hName
      obtain ⟨f, hf, hObeys⟩ := h.field l hl
      exact field?_eq_none (hExtra.undeclared m hm) hf (hObeys.name_eq.trans hSame.symm)
    rw [hMember, Value.lookup_eq_none hOwn, Option.or_none]
    exact h.holds hValue hRead l hl
  · rw [hMember, h.written_eq_none x hName, Option.none_or]
    exact hSame name ((field?_eq_none_iff h.plain).mpr (h.names_eq ▸ hName))

end Record

/-- Whether a value is read as something: the value stands in memory, or a text holds it. -/
inductive Decoder.Accepts (decoder : Decoder α) (v : Value) (a : α) : Prop where
  | memory (hCanonical : v.IsCanonical) (hRead : decodeValue decoder v = .ok a)
  | text (source : Text.Source) (hParse : parseSource source = .ok v)
      (hRead : decodeSource decoder source = .ok a)

/-- What is accepted was read from some document. -/
theorem Decoder.Accepts.exists_document {decoder : Decoder α} {v : Value} {a : α}
    (h : decoder.Accepts v a) :
    ∃ (place : Place) (d : Document), d.value place = .ok v ∧ decoder place d = .ok a := by
  cases h with
  | memory hCanonical hRead =>
      refine ⟨.value, Document.ofValue v, ?_, hRead⟩
      rw [value_ofValue v .value trivial, hCanonical.canonical_eq]
  | text source hParse hRead =>
      obtain ⟨w, hValue, hParse⟩ := Except.bind_eq_ok.mp hParse
      obtain ⟨b, hDecoded, hRead⟩ := Except.bind_eq_ok.mp hRead
      split at hParse <;> cases hParse
      split at hRead <;> cases hRead
      exact ⟨.start, _, hValue, hDecoded⟩

end RemoteSigning.Json
