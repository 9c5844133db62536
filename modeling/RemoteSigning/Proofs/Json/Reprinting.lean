import RemoteSigning.Proofs.Json.Records

/-!
# Values out of text

What a text holds is a canonical value that does not nest too deeply, with numbers in range. If all
its numbers are integers, its text holds the same value again. The same is true of any value inside
it.
-/

namespace RemoteSigning.Json

open Text

variable {v : Value}

/-- What every reading of a text leaves. -/
structure Value.IsParsed (v : Value) : Prop where
  isCanonical : v.IsCanonical
  levels_lt : v.levels < 128
  numbers : v.EveryNumber Numeral.InRange

/-- Whatever is parsed is canonical, not too deep and within range. -/
theorem isParsed_of_parseSource {source : Source} (h : parseSource source = .ok v) : v.IsParsed := by
  obtain ⟨w, hValue, hWhole⟩ := Except.bind_eq_ok.mp h
  obtain rfl : w = v := by
    split at hWhole
    · cases hWhole
    · exact Except.ok.inj hWhole
  have hRoom : Place.start.Admits 0 := Nat.zero_lt_succ 127
  obtain ⟨hCanonical, hLevels⟩ := isCanonical_of_value _ hRoom hValue
  exact ⟨hCanonical, hLevels, everyNumber_of_value _ (inRange_root source) hValue⟩

namespace Value

/-- The text of a value out of text holds the value, if all its numbers are integers. -/
theorem IsParsed.parse_compact (h : v.IsParsed) (hIntegers : v.EveryNumber Numeral.IsInteger) :
    parse v.canonical.compact = .ok v := by
  have hExact := isExact_of_inRange h.numbers hIntegers
  rw [h.isCanonical.canonical_eq, Json.parse_compact hExact h.levels_lt, h.isCanonical.canonical_eq]

/-- The items of an array, or the values of the members of an object. -/
def children : Value → List Value
  | .array items => items
  | .object members => members.map (·.2)
  | _ => []

theorem itemsCanonical_iff {items : List Value} :
    ItemsCanonical items ↔ ∀ item ∈ items, item.IsCanonical := by
  induction items with
  | nil => simp [ItemsCanonical]
  | cons item rest ih => simp [ItemsCanonical, ih]

theorem itemsLevels_le_iff {items : List Value} {n : Nat} :
    itemsLevels items ≤ n ↔ ∀ item ∈ items, item.levels ≤ n := by
  induction items with
  | nil => simp [itemsLevels]
  | cons item rest ih => simp [itemsLevels, ih]

theorem everyNumberItems_iff {p : Numeral → Prop} {items : List Value} :
    EveryNumberItems p items ↔ ∀ item ∈ items, item.EveryNumber p := by
  induction items with
  | nil => simp [EveryNumberItems]
  | cons item rest ih => simp [EveryNumberItems, ih]

/-- The parts of a canonical value are canonical. -/
theorem IsCanonical.children (h : v.IsCanonical) : ∀ w ∈ v.children, w.IsCanonical := by
  cases v with
  | array items => exact itemsCanonical_iff.mp h
  | object members => exact List.forall_mem_map.mpr (membersCanonical_iff.mp h.2)
  | _ => exact List.forall_mem_nil _

/-- They are less deep than the value. -/
theorem levels_lt_of_mem_children : ∀ w ∈ v.children, w.levels < v.levels := by
  cases v with
  | array items =>
      intro w hw
      exact Nat.lt_succ_of_le (itemsLevels_le_iff.mp (Nat.le_refl _) w hw)
  | object members =>
      refine List.forall_mem_map.mpr fun m hm => ?_
      exact Nat.lt_succ_of_le (membersLevels_le_iff.mp (Nat.le_refl _) m hm)
  | _ => exact List.forall_mem_nil _

/-- They have no other numbers than the value. -/
theorem EveryNumber.children {p : Numeral → Prop} (h : v.EveryNumber p) :
    ∀ w ∈ v.children, w.EveryNumber p := by
  cases v with
  | array items => exact everyNumberItems_iff.mp h
  | object members => exact List.forall_mem_map.mpr (everyNumberMembers_iff.mp h)
  | _ => exact List.forall_mem_nil _

end Value

theorem Items.documents_ofValues (items : List Value) :
    (Items.ofValues items).documents = items.map Document.ofValue := by
  induction items with
  | nil => rfl
  | cons v rest ih => rw [Items.ofValues, Items.documents, ih, List.map_cons]

theorem Members.documents_ofValues (members : List (String × Value)) :
    (Members.ofValues members).documents = (members.map (·.2)).map Document.ofValue := by
  induction members with
  | nil => rfl
  | cons m rest ih => rw [Members.ofValues, Members.documents, ih, List.map_cons, List.map_cons]

/-- The parts of the document of a value are the documents of its parts. -/
theorem Document.children_ofValue (v : Value) :
    (Document.ofValue v).children = v.children.map Document.ofValue := by
  cases v with
  | array items => exact Items.documents_ofValues items
  | object members => exact Members.documents_ofValues members
  | _ => rfl

mutual

/-- Nothing is wrong with a tree that was made of a value. -/
theorem Document.skip_ofValue : ∀ v : Value, (Document.ofValue v).skip = none
  | .null => rfl
  | .bool _ => rfl
  | .number _ => rfl
  | .string _ => rfl
  | .array items => Items.skip_ofValues items
  | .object members => Members.skip_ofValues members

/-- Skipping what a value was written as never fails. -/
theorem Items.skip_ofValues : ∀ items : List Value, (Items.ofValues items).skip = none
  | [] => rfl
  | v :: rest => by
      simp only [Items.ofValues, Items.skip, Document.skip_ofValue v, Items.skip_ofValues rest]

theorem Members.skip_ofValues : ∀ members : List (String × Value),
    (Members.ofValues members).skip = none
  | [] => rfl
  | (_, v) :: rest => by
      simp only [Members.ofValues, Members.skip, Document.skip_ofValue v,
        Members.skip_ofValues rest]

end

/-- A member that a record does not declare and drops changes nothing. -/
theorem Record.readMember_dropped {ρ : Type} {r : Record ρ} (hDropped : r.undeclared = .dropped)
    {place : Place} {m : String × Value} (hField : r.field? m.1 = none) (x : ρ) :
    r.readMember place x m = .ok x := by
  simp only [readMember, hField, hDropped, readUndeclared, Document.skip_ofValue]

/-- Members that are not declared leave no trace in a record that drops them. -/
theorem Record.foldlM_dropped {ρ : Type} {r : Record ρ} (hDropped : r.undeclared = .dropped)
    {place : Place} {members : List (String × Value)} (hFields : ∀ m ∈ members, r.field? m.1 = none)
    (x : ρ) : members.foldlM (r.readMember place) x = .ok x := by
  induction members with
  | nil => rfl
  | cons m rest ih =>
      obtain ⟨hFirst, hRest⟩ := List.forall_mem_cons.mp hFields
      rw [List.foldlM_cons, readMember_dropped hDropped hFirst, Except.ok_bind, ih hRest]

end RemoteSigning.Json
