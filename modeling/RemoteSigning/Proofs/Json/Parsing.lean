import RemoteSigning.Proofs.Json.Canonical
import RemoteSigning.Proofs.Json.Documents

/-!
# What parsing gives

Parsing the compact text of a value gives its canonical form, as long as the value does not nest too
deeply. Conversely, whatever parsing gives is canonical, nests no deeper than texts may, and holds
integers in the exact range only.
-/

namespace RemoteSigning.Json

open Number Text

mutual

/-- How many arrays and objects a value nests. -/
def Value.levels : Value → Nat
  | .array items => Value.itemsLevels items + 1
  | .object members => Value.membersLevels members + 1
  | _ => 0

/-- The depth of the deepest item. -/
def Value.itemsLevels : List Value → Nat
  | [] => 0
  | v :: rest => max v.levels (Value.itemsLevels rest)

/-- The depth of the deepest member. -/
def Value.membersLevels : List (String × Value) → Nat
  | [] => 0
  | (_, v) :: rest => max v.levels (Value.membersLevels rest)

end

theorem Value.membersLevels_le_iff {members : List (String × Value)} {n : Nat} :
    Value.membersLevels members ≤ n ↔ ∀ m ∈ members, m.2.levels ≤ n := by
  induction members with
  | nil => simp [Value.membersLevels]
  | cons m rest ih => simp [Value.membersLevels, ih]

theorem Value.everyNumberMembers_iff {p : Numeral → Prop} {members : List (String × Value)} :
    Value.EveryNumberMembers p members ↔ ∀ m ∈ members, m.2.EveryNumber p := by
  induction members with
  | nil => simp [Value.EveryNumberMembers]
  | cons m rest ih => simp [Value.EveryNumberMembers, ih]

/-- Whether a place has room for so many levels. -/
def Place.Admits : Place → Nat → Prop
  | .text room, levels => levels < room
  | .value, _ => True

/-- A place that admits some depth admits all lesser ones. -/
theorem Place.Admits.mono {place : Place} {m n : Nat} (h : place.Admits n) (hLe : m ≤ n) :
    place.Admits m := by
  cases place with
  | text room => exact Nat.lt_of_le_of_lt hLe h
  | value => trivial

theorem Place.Admits.max {place : Place} {m n : Nat} (hm : place.Admits m) (hn : place.Admits n) :
    place.Admits (max m n) := by
  cases place with
  | text room => exact Nat.max_lt.mpr ⟨hm, hn⟩
  | value => trivial

/-- A place that admits a level can be left for the one inside, which admits the rest. -/
theorem Place.Admits.enter {place : Place} {n : Nat} (h : place.Admits (n + 1)) :
    ∃ inner : Place, place.enter = .ok inner ∧ inner.Admits n := by
  cases place with
  | text room =>
      have hRoom : n + 1 < room := h
      exact ⟨.text (room - 1), if_neg (by omega), by simp only [Place.Admits]; omega⟩
  | value => exact ⟨.value, rfl, trivial⟩

/-- Whatever fits inside a place that was entered fits into the place with another level. -/
theorem Place.admits_of_enter {place inner : Place} (h : place.enter = .ok inner) :
    inner.Admits 0 ∧ ∀ n, inner.Admits n → place.Admits (n + 1) := by
  cases place with
  | text room =>
      simp only [Place.enter] at h
      split at h
      · cases h
      · cases h
        refine ⟨by simp only [Place.Admits]; omega, fun n hInner => ?_⟩
        simp only [Place.Admits] at hInner ⊢
        omega
  | value =>
      cases h
      exact ⟨trivial, fun _ _ => trivial⟩

mutual

/-- The tree of a value has the canonical form of the value, wherever there is room. -/
theorem value_ofValue : ∀ (v : Value) (place : Place), place.Admits v.levels →
    (Document.ofValue v).value place = .ok v.canonical
  | .null, _, _ => rfl
  | .bool _, _, _ => rfl
  | .number _, _, _ => rfl
  | .string _, _, _ => rfl
  | .array items, place, h => by
      obtain ⟨inner, hEnter, hInner⟩ := h.enter
      simp only [Document.ofValue, Document.value, hEnter, Except.ok_bind,
        values_ofValues items inner hInner, Value.canonical]
      rfl
  | .object members, place, h => by
      obtain ⟨inner, hEnter, hInner⟩ := h.enter
      simp only [Document.ofValue, Document.value, hEnter, Except.ok_bind,
        memberValues_ofValues members inner hInner, Value.canonical]
      rfl

/-- By induction on the items: each of them has its canonical form as a value. -/
theorem values_ofValues : ∀ (items : List Value) (place : Place),
    place.Admits (Value.itemsLevels items) →
    (Items.ofValues items).values place = .ok (Value.canonicalItems items)
  | [], _, _ => rfl
  | v :: rest, place, h => by
      have hFirst := value_ofValue v place (h.mono (Nat.le_max_left _ _))
      have hRest := values_ofValues rest place (h.mono (Nat.le_max_right _ _))
      simp only [Items.ofValues, Items.values, hFirst, hRest, Except.ok_bind, Value.canonicalItems]
      rfl

theorem memberValues_ofValues : ∀ (members : List (String × Value)) (place : Place),
    place.Admits (Value.membersLevels members) →
    (Members.ofValues members).values place = .ok (Value.canonicalMembers members)
  | [], _, _ => rfl
  | (k, v) :: rest, place, h => by
      have hFirst := value_ofValue v place (h.mono (Nat.le_max_left _ _))
      have hRest := memberValues_ofValues rest place (h.mono (Nat.le_max_right _ _))
      simp only [Members.ofValues, Members.values, hFirst, hRest, Except.ok_bind,
        Value.canonicalMembers]
      rfl

end

/-- A value that is not too deep and whose numbers are exact is parsed from its compact text in
canonical form. -/
theorem parse_compact {v : Value} (hNumbers : v.EveryNumber Numeral.IsExact)
    (hLevels : v.levels < 128) : parse v.compact = .ok v.canonical := by
  have hValue : (Document.ofValue v).value Place.start = .ok v.canonical :=
    value_ofValue v Place.start hLevels
  simp only [parse, parseSource, read_compact hNumbers, Whole.value, hValue]
  rfl

mutual

/-- The value of a tree is canonical and fits where it was read. -/
theorem isCanonical_of_value : ∀ (d : Document) {place : Place} {v : Value}, place.Admits 0 →
    d.value place = .ok v → v.IsCanonical ∧ place.Admits v.levels
  | .null, _, _, hPlace, h => by
      cases h
      exact ⟨trivial, hPlace⟩
  | .bool b, _, _, hPlace, h => by
      cases h
      exact ⟨trivial, hPlace⟩
  | .number n, _, _, hPlace, h => by
      obtain ⟨k, -, rfl⟩ := Except.map_eq_ok.mp h
      exact ⟨trivial, hPlace⟩
  | .string s, _, _, hPlace, h => by
      obtain ⟨t, -, rfl⟩ := Except.map_eq_ok.mp h
      exact ⟨trivial, hPlace⟩
  | .array items, place, v, hPlace, h => by
      simp only [Document.value, Except.bind_eq_ok, Except.pure_eq_ok, Except.ok.injEq] at h
      obtain ⟨inner, hEnter, vs, hItems, rfl⟩ := h
      obtain ⟨hInner, hRoom⟩ := Place.admits_of_enter hEnter
      obtain ⟨hCanonical, hLevels⟩ := itemsCanonical_of_values items hInner hItems
      exact ⟨hCanonical, hRoom _ hLevels⟩
  | .object members, place, v, hPlace, h => by
      simp only [Document.value, Except.bind_eq_ok, Except.pure_eq_ok, Except.ok.injEq] at h
      obtain ⟨inner, hEnter, ms, hMembers, rfl⟩ := h
      obtain ⟨hInner, hRoom⟩ := Place.admits_of_enter hEnter
      obtain ⟨hCanonical, hLevels⟩ := membersCanonical_of_values members hInner hMembers
      have hSorted : ∀ m ∈ Value.sortMembers ms, m ∈ ms := fun m hm => Value.mem_of_mem_sortMembers hm
      have hLe : Value.membersLevels (Value.sortMembers ms) ≤ Value.membersLevels ms :=
        Value.membersLevels_le_iff.mpr fun m hm =>
          Value.membersLevels_le_iff.mp (Nat.le_refl _) m (hSorted m hm)
      refine ⟨⟨Value.sortedMembers_sortMembers ms, ?_⟩, hRoom _ (hLevels.mono hLe)⟩
      exact Value.membersCanonical_iff.mpr fun m hm =>
        Value.membersCanonical_iff.mp hCanonical m (hSorted m hm)
  | .brokenNull _, _, _, _, h => by cases h
  | .brokenScalar _ _, _, _, _, h => by cases h
  | .broken _ _, _, _, _, h => by cases h

/-- By induction on the items: whatever is read is canonical and not too deep. -/
theorem itemsCanonical_of_values : ∀ (items : Items) {place : Place} {vs : List Value},
    place.Admits 0 → items.values place = .ok vs →
    Value.ItemsCanonical vs ∧ place.Admits (Value.itemsLevels vs)
  | .closed, _, _, hPlace, h => by
      cases h
      exact ⟨trivial, hPlace⟩
  | .stop _, _, _, _, h => by cases h
  | .next item rest, place, vs, hPlace, h => by
      simp only [Items.values, Except.bind_eq_ok, Except.pure_eq_ok, Except.ok.injEq] at h
      obtain ⟨v, hItem, ws, hRest, rfl⟩ := h
      obtain ⟨hCanonical, hLevels⟩ := isCanonical_of_value item hPlace hItem
      obtain ⟨hRestCanonical, hRestLevels⟩ := itemsCanonical_of_values rest hPlace hRest
      exact ⟨⟨hCanonical, hRestCanonical⟩, hLevels.max hRestLevels⟩

theorem membersCanonical_of_values : ∀ (members : Members) {place : Place}
    {ms : List (String × Value)}, place.Admits 0 → members.values place = .ok ms →
    Value.MembersCanonical ms ∧ place.Admits (Value.membersLevels ms)
  | .closed, _, _, hPlace, h => by
      cases h
      exact ⟨trivial, hPlace⟩
  | .stop _, _, _, _, h => by cases h
  | .nameless _, _, _, _, h => by cases h
  | .brokenName _ _, _, _, _, h => by cases h
  | .next name value rest, place, ms, hPlace, h => by
      simp only [Members.values, Except.bind_eq_ok, Except.pure_eq_ok, Except.ok.injEq] at h
      obtain ⟨k, -, v, hValue, ns, hRest, rfl⟩ := h
      obtain ⟨hCanonical, hLevels⟩ := isCanonical_of_value value hPlace hValue
      obtain ⟨hRestCanonical, hRestLevels⟩ := membersCanonical_of_values rest hPlace hRest
      exact ⟨⟨hCanonical, hRestCanonical⟩, hLevels.max hRestLevels⟩

end

/-- Only `null` is read as `null`. -/
theorem ne_null_of_value {d : Document} {place : Place} {v : Value} (hNull : d ≠ .null)
    (h : d.value place = .ok v) : v ≠ .null := by
  rintro rfl
  cases d with
  | null => exact hNull rfl
  | bool b => cases h
  | number n => simp [Document.value] at h
  | string s => simp [Document.value] at h
  | array items => simp [Document.value] at h
  | object members => simp [Document.value] at h
  | brokenNull f => cases h
  | brokenScalar f skipped => cases h
  | broken f skipped => cases h

end RemoteSigning.Json
