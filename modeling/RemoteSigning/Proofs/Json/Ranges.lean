import RemoteSigning.Proofs.Json.Parsing

/-!
# Ranges of numbers in text

Every integer that is read out of text is in the exact range, and so is every integer in a value
that is read out of a tree of text.
-/

namespace RemoteSigning.Json

open Number Text

/-- Whether a number, if it is an integer, is in the exact range. -/
def Numeral.InRange : Numeral → Prop
  | .integer n => InExactRange n
  | .real _ => True

/-- Whether a number is printed without a fraction and an exponent. -/
def Numeral.IsInteger : Numeral → Prop
  | .integer _ => True
  | .real _ => False

/-- An integer in range is exact. -/
theorem Numeral.InRange.isExact {n : Numeral} (hRange : n.InRange) (hInteger : n.IsInteger) :
    n.IsExact := by
  cases n with
  | integer n => exact hRange
  | real x => exact hInteger.elim

mutual

/-- Whether all numbers in a tree are in range. -/
def Document.InRange : Document → Prop
  | .number (.ok n) => n.InRange
  | .array items => items.InRange
  | .object members => members.InRange
  | _ => True

/-- Whether all numbers in the items are in range. -/
def Items.InRange : Items → Prop
  | .next item rest => item.InRange ∧ rest.InRange
  | _ => True

/-- Whether all numbers in the members are in range. -/
def Members.InRange : Members → Prop
  | .next _ value rest => value.InRange ∧ rest.InRange
  | _ => True

end

/-- Digits are taken in only as long as the significand fits in 64 bits. -/
theorem accumulate_lt {significand : Nat} (h : significand < 2 ^ 64) (digits : List Nat) :
    (accumulate significand digits).1 < 2 ^ 64 := by
  induction digits generalizing significand with
  | nil => exact h
  | cons d rest ih =>
      rw [accumulate]
      split
      · rename_i hFits
        exact ih hFits
      · exact h

/-- A number with a fraction or an exponent is in range or is refused. -/
theorem inRange_of_realOf {negative : Bool} {significand : Nat} {e : Int} {n : Numeral}
    (h : realOf negative significand e = .ok n) : n.InRange := by
  unfold realOf at h
  split at h
  · obtain ⟨y, -, hReal⟩ := Except.bind_eq_ok.mp h
    cases hReal
    trivial
  · cases h

/-- So is one without, which is a real number if it does not fit as an integer. -/
theorem inRange_of_integerOf {negative : Bool} {significand : Nat} {n : Numeral}
    (hFits : significand < 2 ^ 64) (h : integerOf negative significand = .ok n) : n.InRange := by
  unfold integerOf at h
  split at h
  · split at h
    · rename_i hMagnitude
      cases h
      simp only [Numeral.InRange, InExactRange]
      omega
    · exact inRange_of_realOf h
  · cases h
    simp only [Numeral.InRange, InExactRange]
    omega

/-- Whatever a number is written as, its value is in range. -/
theorem inRange_of_value {t : NumberText} {n : Numeral} (h : t.value = .ok n) : n.InRange := by
  have hFits : (accumulate 0 t.whole).1 < 2 ^ 64 := accumulate_lt (by omega) t.whole
  unfold NumberText.value at h
  split at h
  rename_i significand surplus hWhole
  rw [hWhole] at hFits
  split at h
  · exact inRange_of_integerOf hFits h
  · split at h
    · exact inRange_of_realOf h
    · split at h
      · exact inRange_of_realOf h
      · simp only at h
        split at h
        · cases h
        · cases h
          trivial

theorem Document.inRange_number (t : NumberText) : (Document.number t.value).InRange := by
  cases h : t.value with
  | ok n => exact inRange_of_value h
  | error f => trivial

section Readers

variable {n : Nat} (hValue : ∀ source, (readValue n source).1.InRange)
  (hItems : ∀ source, (readItems n source).1.InRange)
  (hMembers : ∀ source, (readMembers n source).1.InRange)

include hItems hMembers in
theorem inRange_readValue_succ (source : Source) : (readValue (n + 1) source).1.InRange := by
  rw [readValue]
  split
  · trivial
  · split <;> trivial
  · split <;> trivial
  · split <;> trivial
  · split
    split <;> trivial
  · split
    · trivial
    · trivial
    · exact hItems _
  · split
    · trivial
    · trivial
    · exact hMembers _
  · split
    · split
      · exact Document.inRange_number _
      · trivial
    · trivial

include hValue hItems in
theorem inRange_readItems_succ (source : Source) : (readItems (n + 1) source).1.InRange := by
  rw [readItems]
  have hItem := hValue source
  split
  · rename_i hRead
    rw [hRead] at hItem
    exact ⟨hItem, trivial⟩
  · rename_i hRead
    rw [hRead] at hItem
    split
    · exact ⟨hItem, trivial⟩
    · exact ⟨hItem, trivial⟩
    · split
      · exact ⟨hItem, trivial⟩
      · exact ⟨hItem, trivial⟩
      · exact ⟨hItem, hItems _⟩
    · exact ⟨hItem, trivial⟩

include hValue hMembers in
theorem inRange_readMembers_succ (source : Source) : (readMembers (n + 1) source).1.InRange := by
  unfold readMembers
  split
  · contradiction
  · rename_i bound _ hBound
    obtain rfl : n = bound := Nat.succ.inj hBound
    split
    split
    · trivial
    · trivial
    · split
      · exact ⟨trivial, trivial⟩
      · rename_i rest _
        have hMember := hValue rest
        split
        · rename_i hRead
          rw [hRead] at hMember
          exact ⟨hMember, trivial⟩
        · rename_i hRead
          rw [hRead] at hMember
          split
          · exact ⟨hMember, trivial⟩
          · exact ⟨hMember, trivial⟩
          · split
            · exact ⟨hMember, trivial⟩
            · exact ⟨hMember, trivial⟩
            · exact ⟨hMember, hMembers _⟩
          · exact ⟨hMember, trivial⟩
      · exact ⟨trivial, trivial⟩
  · trivial

end Readers

/-- Whatever the bound on the steps, all numbers read are in range. The three readers call each
other with a smaller bound, so they go together. -/
theorem inRange_read (n : Nat) : (∀ source, (readValue n source).1.InRange) ∧
    (∀ source, (readItems n source).1.InRange) ∧ ∀ source, (readMembers n source).1.InRange := by
  induction n with
  | zero => exact ⟨fun _ => trivial, fun _ => trivial, fun _ => trivial⟩
  | succ n ih =>
      obtain ⟨hValue, hItems, hMembers⟩ := ih
      refine ⟨fun source => ?_, fun source => ?_, fun source => ?_⟩
      · exact inRange_readValue_succ hItems hMembers source
      · exact inRange_readItems_succ hValue hItems source
      · exact inRange_readMembers_succ hValue hMembers source

/-- All numbers of a document that was read are in range. -/
theorem inRange_root (source : Source) : (Whole.read source).root.InRange := by
  have hRead := (inRange_read (2 * source.length + 2)).1 source
  rw [Whole.read]
  split <;> rename_i hValue <;> rw [hValue] at hRead <;> exact hRead

theorem everyNumberMembers_sortMembers {p : Numeral → Prop} {members : List (String × Value)}
    (h : Value.EveryNumberMembers p members) :
    Value.EveryNumberMembers p (Value.sortMembers members) :=
  Value.everyNumberMembers_iff.mpr fun m hm =>
    Value.everyNumberMembers_iff.mp h m (Value.mem_of_mem_sortMembers hm)

mutual

/-- The value of a tree has the numbers of the tree. -/
theorem everyNumber_of_value : ∀ (d : Document) {place : Place} {v : Value}, d.InRange →
    d.value place = .ok v → v.EveryNumber Numeral.InRange
  | .null, _, _, _, h => by
      cases h
      trivial
  | .bool _, _, _, _, h => by
      cases h
      trivial
  | .number n, _, _, hRange, h => by
      obtain ⟨k, rfl, rfl⟩ := Except.map_eq_ok.mp h
      exact hRange
  | .string s, _, _, _, h => by
      obtain ⟨t, -, rfl⟩ := Except.map_eq_ok.mp h
      trivial
  | .array items, _, _, hRange, h => by
      simp only [Document.value, Except.bind_eq_ok, Except.pure_eq_ok, Except.ok.injEq] at h
      obtain ⟨inner, -, vs, hItems, rfl⟩ := h
      exact everyNumberItems_of_values items hRange hItems
  | .object members, _, _, hRange, h => by
      simp only [Document.value, Except.bind_eq_ok, Except.pure_eq_ok, Except.ok.injEq] at h
      obtain ⟨inner, -, ms, hMembers, rfl⟩ := h
      exact everyNumberMembers_sortMembers (everyNumberMembers_of_values members hRange hMembers)
  | .brokenNull _, _, _, _, h => by cases h
  | .brokenScalar _ _, _, _, _, h => by cases h
  | .broken _ _, _, _, _, h => by cases h

theorem everyNumberItems_of_values : ∀ (items : Items) {place : Place} {vs : List Value},
    items.InRange → items.values place = .ok vs → Value.EveryNumberItems Numeral.InRange vs
  | .closed, _, _, _, h => by
      cases h
      trivial
  | .stop _, _, _, _, h => by cases h
  | .next item rest, _, _, hRange, h => by
      simp only [Items.values, Except.bind_eq_ok, Except.pure_eq_ok, Except.ok.injEq] at h
      obtain ⟨v, hItem, vs, hRest, rfl⟩ := h
      exact ⟨everyNumber_of_value item hRange.1 hItem,
        everyNumberItems_of_values rest hRange.2 hRest⟩

theorem everyNumberMembers_of_values : ∀ (members : Members) {place : Place}
    {ms : List (String × Value)}, members.InRange → members.values place = .ok ms →
    Value.EveryNumberMembers Numeral.InRange ms
  | .closed, _, _, _, h => by
      cases h
      trivial
  | .stop _, _, _, _, h => by cases h
  | .nameless _, _, _, _, h => by cases h
  | .brokenName _ _, _, _, _, h => by cases h
  | .next name value rest, _, _, hRange, h => by
      simp only [Members.values, Except.bind_eq_ok, Except.pure_eq_ok, Except.ok.injEq] at h
      obtain ⟨k, -, v, hValue, ms, hRest, rfl⟩ := h
      exact ⟨everyNumber_of_value value hRange.1 hValue,
        everyNumberMembers_of_values rest hRange.2 hRest⟩

end

mutual

/-- If all numbers are in range and are integers, all of them are exact. -/
theorem isExact_of_inRange : ∀ {v : Value}, v.EveryNumber Numeral.InRange →
    v.EveryNumber Numeral.IsInteger → v.EveryNumber Numeral.IsExact
  | .null, _, _ => trivial
  | .bool _, _, _ => trivial
  | .number _, hRange, hInteger => Numeral.InRange.isExact hRange hInteger
  | .string _, _, _ => trivial
  | .array items, hRange, hInteger => itemsExact_of_inRange items hRange hInteger
  | .object members, hRange, hInteger =>
      membersExact_of_inRange members hRange hInteger

theorem itemsExact_of_inRange : ∀ (items : List Value),
    Value.EveryNumberItems Numeral.InRange items → Value.EveryNumberItems Numeral.IsInteger items →
    Value.EveryNumberItems Numeral.IsExact items
  | [], _, _ => trivial
  | _ :: rest, hRange, hInteger =>
      ⟨isExact_of_inRange hRange.1 hInteger.1, itemsExact_of_inRange rest hRange.2 hInteger.2⟩

theorem membersExact_of_inRange : ∀ (members : List (String × Value)),
    Value.EveryNumberMembers Numeral.InRange members →
    Value.EveryNumberMembers Numeral.IsInteger members →
    Value.EveryNumberMembers Numeral.IsExact members
  | [], _, _ => trivial
  | _ :: rest, hRange, hInteger =>
      ⟨isExact_of_inRange hRange.1 hInteger.1, membersExact_of_inRange rest hRange.2 hInteger.2⟩

end

end RemoteSigning.Json
