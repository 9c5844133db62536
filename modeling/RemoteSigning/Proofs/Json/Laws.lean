import RemoteSigning.Proofs.Json.Orders
import Mathlib.Data.List.Forall2
import Mathlib.Data.List.Nodup

/-!
# Laws of members

A record that was read is written again. What stands for each of its members then depends on what
stood for that member before, and on nothing else: one law a member says how. Below the laws stands
what each reader contributes to them, wherever the value that it reads stands.
-/

namespace RemoteSigning.Json

variable {α : Type}

namespace Value

variable {members : List (String × Value)} {name : String}

theorem lookup_cons (k : String) (v : Value) (rest : List (String × Value)) (name : String) :
    ((k, v) :: rest).lookup name = if name = k then some v else rest.lookup name := by
  by_cases h : name = k
  · rw [h, List.lookup_cons_self, if_pos rfl]
  · rw [List.lookup_cons, beq_false_of_ne h, if_neg h]

/-- Inserting a member in its place changes what is found under its own name only. -/
theorem lookup_insertMember (k : String) (v : Value) :
    (insertMember k v members).lookup name = if name = k then some v else members.lookup name := by
  induction members with
  | nil => rw [insertMember, lookup_cons]
  | cons m rest ih =>
      obtain ⟨l, w⟩ := m
      rw [insertMember]
      split_ifs with hLt hSame hName hName hName
      all_goals grind [lookup_cons]

/-- Of members of one name the last is found. -/
theorem lookup_sortMembers (members : List (String × Value)) (name : String) :
    (sortMembers members).lookup name = members.reverse.lookup name := by
  induction members using List.reverseRecOn with
  | nil => rfl
  | append_singleton members m ih =>
      rw [sortMembers_append_singleton, lookup_insertMember, ih, List.reverse_concat, lookup_cons]

/-- Every member keeps its name and is found there in its canonical form. -/
theorem lookup_canonicalMembers (members : List (String × Value)) (name : String) :
    (canonicalMembers members).lookup name = (members.lookup name).map canonical := by
  induction members with
  | nil => rfl
  | cons m rest ih =>
      obtain ⟨k, v⟩ := m
      rw [canonicalMembers, lookup_cons, lookup_cons, ih]
      split_ifs <;> rfl

theorem lookup_optional (k : String) (write : α → Value) (a? : Option α) (name : String) :
    (optional k write a?).lookup name = if name = k then a?.map write else none := by
  cases a? with
  | none => simp [optional]
  | some a => rw [optional, lookup_cons]; rfl

theorem lookup_eq_none (h : name ∉ members.map (·.1)) : members.lookup name = none := by
  rw [List.lookup_eq_none_iff]
  intro m hm
  rw [bne_iff_ne]
  rintro rfl
  exact h (List.mem_map_of_mem hm)

/-- Among members with distinct names, each is found from either end. -/
theorem lookup_reverse (h : (members.map (·.1)).Nodup) (name : String) :
    members.reverse.lookup name = members.lookup name := by
  induction members with
  | nil => rfl
  | cons m rest ih =>
      obtain ⟨k, v⟩ := m
      obtain ⟨hNew, hRest⟩ := List.nodup_cons.mp h
      rw [List.reverse_cons, List.lookup_append, ih hRest, lookup_cons, lookup_cons, List.lookup_nil]
      split_ifs with hName
      · rw [lookup_eq_none (hName ▸ hNew), Option.none_or]
      · rw [Option.or_none]

theorem mem_iff_lookup (h : (members.map (·.1)).Nodup) (m : String × Value) :
    m ∈ members ↔ members.lookup m.1 = some m.2 := by
  induction members with
  | nil => simp
  | cons first rest ih =>
      obtain ⟨k, v⟩ := first
      obtain ⟨hNew, hRest⟩ := List.nodup_cons.mp h
      rw [List.mem_cons, ih hRest, lookup_cons]
      split_ifs with hName
      · rw [hName, lookup_eq_none hNew]
        simp [Prod.ext_iff, hName, eq_comm]
      · simp [Prod.ext_iff, hName]

/-- Sorted members are determined by what stands under each name. -/
theorem SortedMembers.ext {first second : List (String × Value)} (hFirst : SortedMembers first)
    (hSecond : SortedMembers second) (h : ∀ name, first.lookup name = second.lookup name) :
    first = second := by
  have hPerm : first.Perm second := by
    rw [List.perm_ext_iff_of_nodup (.of_map _ hFirst.nodup) (.of_map _ hSecond.nodup)]
    intro m
    rw [mem_iff_lookup hFirst.nodup, mem_iff_lookup hSecond.nodup, h]
  exact hPerm.eq_of_pairwise (fun _ _ _ _ hLt hGt => absurd hLt (lt_asymm hGt)) hFirst hSecond

theorem lookup_filter (keep : String → Bool) (members : List (String × Value)) (name : String) :
    (members.filter fun m => keep m.1).lookup name =
      if keep name then members.lookup name else none := by
  induction members with
  | nil => simp
  | cons m rest ih =>
      obtain ⟨k, v⟩ := m
      rw [List.filter_cons, lookup_cons]
      by_cases hName : name = k
      · subst hName
        by_cases hKeep : keep name
        · simp [hKeep]
        · simp [hKeep, ih]
      · by_cases hKeep : keep k
        · simp [hKeep, hName, ih, lookup_cons]
        · simp [hKeep, hName, ih]

theorem bind_string?_eq_some {v? : Option Value} {s : String} :
    v?.bind string? = some s ↔ v? = some (.string s) := by
  rcases v? with _ | (_ | _ | _ | _ | _ | _) <;> simp [string?]

/-- There is no string if there is no value, or one of another kind. -/
theorem bind_string?_eq_none {v? : Option Value} :
    v?.bind string? = none ↔ ∀ s, v? ≠ some (.string s) := by
  rw [Option.eq_none_iff_forall_ne_some]
  exact forall_congr' fun s => not_congr bind_string?_eq_some

theorem member?_of_string? {v : Value} {s : String}
    (h : (v.member? name).bind string? = some s) : v.member? name = some (.string s) :=
  bind_string?_eq_some.mp h

/-- Only an object has a member. -/
theorem exists_object_of_member? {v w : Value} (h : v.member? name = some w) :
    ∃ members, v = .object members ∧ members.lookup name = some w := by
  cases v with
  | object members => exact ⟨members, rfl, h⟩
  | _ => cases h

/-- Members of different names are found in the canonical form of the object. -/
theorem member?_canonical (h : (members.map (·.1)).Nodup) (name : String) :
    (Value.object members).canonical.member? name = (members.lookup name).map canonical := by
  rw [canonical, member?, lookup_sortMembers, lookup_reverse (by rwa [names_canonicalMembers]),
    lookup_canonicalMembers]

end Value

/-- What becomes of one member of a record when the record is read and written again. -/
structure Law where
  name : String
  /-- Whether the member may be missing or `null`. Then it is not written. -/
  optional : Bool
  /-- What is written for a value. -/
  rel : Value → Value → Prop

/-- Whether a law holds of what stood for its member and what is written for it. -/
def Law.Holds (l : Law) (v? w? : Option Value) : Prop :=
  if l.optional ∧ (v? = none ∨ v? = some .null) then w? = none
  else ∃ v ∈ v?, ∃ w ∈ w?, l.rel v w

/-- A choice of names keeps its name, and is written as a string. -/
def SameName (v w : Value) : Prop :=
  ∃ name, (v = .string name ∨ v = .object [(name, .null)]) ∧ w = .string name

/-- An array is written with as many items, each of which is related to that in its place. -/
def EntryByEntry (rel : Value → Value → Prop) (v w : Value) : Prop :=
  ∃ vs ws, v = .array vs ∧ w = .array ws ∧ List.Forall₂ rel vs ws

/-- The members that a value gives for a record with members of some names. -/
def membersGiven (names : List String) : Value → List (String × Value)
  | .object members => members
  | .array items => names.zip items
  | _ => []

/-- A record is written as an object. Its members obey laws, and it has none that was not there. -/
structure Rewritten (laws : List Law) (v w : Value) : Prop where
  isObject : ∃ members, w = .object members
  holds : ∀ l ∈ laws, l.Holds ((membersGiven (laws.map (·.name)) v).lookup l.name) (w.member? l.name)
  nothingNew : ∀ name, (w.member? name).isSome →
    ((membersGiven (laws.map (·.name)) v).lookup name).isSome

/-- A record that carries undeclared members along is written with every member that was there, but
for declared ones that may be `null` and are, and with no other one. Declared members obey laws, and
all others stay as they are. -/
structure Preserved (laws : List Law) (v w : Value) : Prop where
  isObject : ∃ members, w = .object members
  names : ∀ name, (w.member? name).isSome ↔
    ∃ u, v.member? name = some u ∧ ¬(u = .null ∧ ∃ l ∈ laws, l.name = name ∧ l.optional)
  declared : ∀ l ∈ laws, l.Holds (v.member? l.name) (w.member? l.name)
  undeclared : ∀ name, name ∉ laws.map (·.name) → w.member? name = v.member? name

/-- A member is written exactly if it was read and is not a `null` that stands for its absence. -/
theorem Law.Holds.isSome_iff {l : Law} {v? w? : Option Value} (h : l.Holds v? w?) :
    w?.isSome ↔ ∃ u, v? = some u ∧ ¬(u = .null ∧ l.optional) := by
  rw [Law.Holds] at h
  split at h
  · rename_i hAbsent
    rw [h]
    refine iff_of_false nofun ?_
    rintro ⟨u, rfl, hu⟩
    exact hu ⟨Option.some.inj (hAbsent.2.resolve_left nofun), hAbsent.1⟩
  · rename_i hThere
    obtain ⟨v, rfl, w, rfl, -⟩ := h
    refine iff_of_true rfl ⟨v, rfl, fun hNull => hThere ⟨hNull.2, .inr (congrArg some hNull.1)⟩⟩

theorem Law.Holds.isSome {l : Law} {v? w? : Option Value} (h : l.Holds v? w?) (hSome : w?.isSome) :
    v?.isSome := by
  obtain ⟨u, rfl, -⟩ := h.isSome_iff.mp hSome
  rfl

/-- The names follow from what stands under each of them. -/
theorem Preserved.of_laws {laws : List Law} {v w : Value} (hDistinct : (laws.map (·.name)).Nodup)
    (hObject : ∃ members, w = .object members)
    (hDeclared : ∀ l ∈ laws, l.Holds (v.member? l.name) (w.member? l.name))
    (hUndeclared : ∀ name, name ∉ laws.map (·.name) → w.member? name = v.member? name) :
    Preserved laws v w where
  isObject := hObject
  declared := hDeclared
  undeclared := hUndeclared
  names name := by
    by_cases hName : name ∈ laws.map (·.name)
    · obtain ⟨l, hl, rfl⟩ := List.mem_map.mp hName
      have hOptional : (∃ l' ∈ laws, l'.name = l.name ∧ l'.optional) ↔ l.optional := by
        refine ⟨?_, fun h => ⟨l, hl, rfl, h⟩⟩
        rintro ⟨l', hl', hSame, h⟩
        rwa [← List.inj_on_of_nodup_map hDistinct hl' hl hSame]
      rw [(hDeclared l hl).isSome_iff, hOptional]
    · rw [hUndeclared name hName, Option.isSome_iff_exists]
      refine exists_congr fun u => (and_iff_left ?_).symm
      rintro ⟨-, l, hl, hSame, -⟩
      exact hName (List.mem_map.mpr ⟨l, hl, hSame⟩)

/-- Whether what a reader finds in a value is written as a relation says, wherever the value stands. -/
def Decoder.Rewrites (decoder : Decoder α) (write : α → Value) (rel : Value → Value → Prop) : Prop :=
  ∀ ⦃place d v a⦄, place.Admits 0 → d.value place = .ok v → decoder place d = .ok a →
    rel v (write a).canonical

/-- The items of an array are one level deeper than the array. -/
theorem Document.values_of_array {place inner : Place} {items : Items} {v : Value}
    (hValue : (Document.array items).value place = .ok v) (hEnter : place.enter = .ok inner) :
    inner.Admits 0 ∧ ∃ vs, items.values inner = .ok vs ∧ v = .array vs := by
  simp only [Document.value, hEnter, Except.ok_bind, Except.bind_eq_ok, Except.pure_eq_ok,
    Except.ok.injEq] at hValue
  obtain ⟨vs, hValues, rfl⟩ := hValue
  exact ⟨(Place.admits_of_enter hEnter).1, vs, hValues, rfl⟩

/-- The members of an object are one level deeper than the object. -/
theorem Document.values_of_object {place inner : Place} {members : Members} {v : Value}
    (hValue : (Document.object members).value place = .ok v) (hEnter : place.enter = .ok inner) :
    inner.Admits 0 ∧ ∃ vs, members.values inner = .ok vs ∧ v = .object (Value.sortMembers vs) := by
  simp only [Document.value, hEnter, Except.ok_bind, Except.bind_eq_ok, Except.pure_eq_ok,
    Except.ok.injEq] at hValue
  obtain ⟨vs, hValues, rfl⟩ := hValue
  exact ⟨(Place.admits_of_enter hEnter).1, vs, hValues, rfl⟩

/-- Only `null` is read as absent. -/
theorem Decoder.null_of_option {decoder : Decoder α} {place : Place} {d : Document}
    (h : decoder.option place d = .ok none) : d = .null := by
  unfold Decoder.option at h
  split at h
  · rfl
  · cases h
  · obtain ⟨a, -, hSome⟩ := Except.map_eq_ok.mp h
    cases hSome

/-- What is read as a string was a string, whatever it was read as besides. -/
theorem Decoder.value_of_string {place : Place} {d : Document} {v : Value} {s : String}
    (hValue : d.value place = .ok v) (h : Decoder.string place d = .ok s) : v = .string s := by
  unfold Decoder.string at h
  split at h
  · cases h
    cases hValue
    rfl
  · cases h

/-- Strings are written as they were read. -/
theorem Decoder.rewrites_string : Decoder.string.Rewrites .string Eq :=
  fun _ _ _ _ _ hValue h => value_of_string hValue h

theorem Decoder.rewrites_bool : Decoder.bool.Rewrites .bool Eq := by
  intro place d v b _ hValue h
  unfold Decoder.bool at h
  split at h
  · cases h
    cases hValue
    rfl
  · cases h

/-- So are natural numbers, which are read from integers only. -/
theorem Decoder.rewrites_u64 : Decoder.u64.Rewrites (fun n => .integer n) Eq := by
  intro place d v n _ hValue h
  unfold Decoder.u64 at h
  split at h
  · split at h
    · rename_i hSign
      cases h
      cases hValue
      exact congrArg Value.integer (Int.toNat_of_nonneg hSign).symm
    · cases h
  · cases h

theorem Decoder.rewrites_i64 : Decoder.i64.Rewrites .integer Eq := by
  intro place d v n _ hValue h
  unfold Decoder.i64 at h
  split at h
  · split at h
    · cases h
      cases hValue
      rfl
    · cases h
  · cases h

/-- Of what is read without a form, nothing is changed. -/
theorem Decoder.rewrites_any : Decoder.any.Rewrites id Eq := by
  intro place d v w hPlace hValue h
  have hSame : d.value place = .ok w := Except.mapError_eq_ok.mp h
  obtain rfl := Except.ok.inj (hValue.symm.trans hSame)
  exact (isCanonical_of_value d hPlace hValue).1.canonical_eq.symm

theorem Decoder.choose_eq_ok {choices : List (String × α)} {name : String} {a : α} :
    choose choices name = .ok a ↔ choices.lookup name = some a := by
  unfold choose
  cases choices.lookup name with
  | none => exact iff_of_false nofun nofun
  | some b => simp only [Except.ok.injEq, Option.some.injEq]

/-- Only `null` can be read as nothing. -/
theorem Decoder.unit_eq_ok {place : Place} {d : Document} (h : unit place d = .ok ()) :
    d = .null := by
  unfold unit at h
  split at h
  · rfl
  · cases h

/-- In its object form a choice is a single name that is mapped to `null`. -/
theorem Decoder.choiceMember_eq_ok {choices : List (String × α)} {place : Place} {ms : Members}
    {a : α} (h : choiceMember choices place ms = .ok a) :
    ∃ name, ms = .next (.ok name) .null .closed ∧ choices.lookup name = some a := by
  cases ms with
  | next name? value rest =>
      simp only [choiceMember, liftFault, Except.bind_eq_ok, Except.mapError_eq_ok] at h
      obtain ⟨name, rfl, b, hChoice, _, hNull, h⟩ := h
      obtain rfl := unit_eq_ok hNull
      split at h
      · cases h
        exact ⟨name, rfl, choose_eq_ok.mp hChoice⟩
      · cases h
      · cases h
  | closed | stop | nameless | brokenName => cases h

/-- A choice is written under the name under which it was read, if that is how `write` names it. -/
theorem Decoder.rewrites_choice {choices : List (String × α)} {write : α → String}
    (hChoices : ∀ name a, choices.lookup name = some a → write a = name) :
    (Decoder.choice choices).Rewrites (fun a => .string (write a)) SameName := by
  intro place d v a hPlace hValue h
  have hObject {name : String} (hName : choices.lookup name = some a)
      (hForm : d = .object (.next (.ok name) .null .closed)) : SameName v (.string (write a)) := by
    subst hForm
    simp only [Document.value, Members.values, Except.bind_eq_ok, Except.pure_eq_ok,
      Except.ok.injEq] at hValue
    obtain ⟨inner, -, ms, ⟨_, rfl, _, rfl, _, rfl, rfl⟩, rfl⟩ := hValue
    exact ⟨name, .inr rfl, congrArg Value.string (hChoices name a hName)⟩
  unfold Decoder.choice at h
  split at h
  · rename_i s
    cases hValue
    exact ⟨s, .inl rfl, congrArg Value.string (hChoices s a (choose_eq_ok.mp h))⟩
  · cases h
  · obtain ⟨inner, -, hMember⟩ := Except.bind_eq_ok.mp h
    obtain ⟨name, rfl, hName⟩ := choiceMember_eq_ok hMember
    exact hObject hName rfl
  · cases h
  · cases h
  · rename_i name value
    simp only [Except.bind_eq_ok, Except.pure_eq_ok, Except.ok.injEq] at h
    obtain ⟨_, hChoice, _, hNull, rfl⟩ := h
    obtain rfl := unit_eq_ok hNull
    exact hObject (choose_eq_ok.mp hChoice) rfl
  · cases h
  · cases h

/-- If a decoder obeys a law, a list of what it reads obeys the law entry by entry. -/
theorem Decoder.Rewrites.list {decoder : Decoder α} {write : α → Value}
    {rel : Value → Value → Prop} (h : decoder.Rewrites write rel) :
    (Decoder.list decoder).Rewrites (fun l => .array (l.map write)) (EntryByEntry rel) := by
  have hItems : ∀ (items : Items) {place : Place} {vs : List Value} {l : List α}, place.Admits 0 →
      items.values place = .ok vs → Decoder.items decoder place items = .ok l →
      List.Forall₂ rel vs (l.map fun a => (write a).canonical) := by
    intro items
    induction items using Items.documents.induct with
    | case1 item rest ih =>
        intro place vs l hPlace hValues hRead
        simp only [Items.values, Decoder.items, Except.bind_eq_ok, Except.pure_eq_ok,
          Except.ok.injEq] at hValues hRead
        obtain ⟨v, hValue, vs, hRest, rfl⟩ := hValues
        obtain ⟨a, hFirst, l, hLater, rfl⟩ := hRead
        exact .cons (h hPlace hValue hFirst) (ih hPlace hRest hLater)
    | case2 items hOther =>
        intro place vs l hPlace hValues hRead
        cases items with
        | closed =>
            cases hValues
            cases hRead
            exact .nil
        | stop why => cases hRead
        | next item rest => exact absurd rfl (hOther item rest)
  intro place d v l hPlace hValue hRead
  unfold Decoder.list at hRead
  split at hRead
  · simp only [liftFault, Except.bind_eq_ok, Except.mapError_eq_ok] at hRead
    obtain ⟨inner, hEnter, hRead⟩ := hRead
    obtain ⟨hPlace, vs, hValues, rfl⟩ := Document.values_of_array hValue hEnter
    refine ⟨vs, _, rfl, ?_, hItems _ hPlace hValues hRead⟩
    rw [Value.canonical, Value.canonicalItems_map]
  · cases hRead

end RemoteSigning.Json
