import RemoteSigning.Json.Value
import Mathlib.Data.List.Induction
import Mathlib.Data.String.Basic

/-!
# Canonical values

In a canonical value the members of every object are sorted by strictly increasing names. Bringing a
value into canonical form gives such a value, and leaves one that already is canonical alone.
-/

namespace RemoteSigning.Json.Value

variable {members sorted : List (String × Value)}

/-- Whether members stand in the order of their names, none of them twice. -/
def SortedMembers (members : List (String × Value)) : Prop := members.Pairwise (·.1 < ·.1)

theorem mem_of_mem_insertMember {name : String} {v : Value} {m : String × Value}
    (h : m ∈ insertMember name v members) : m = (name, v) ∨ m ∈ members := by
  induction members with
  | nil => simpa [insertMember] using h
  | cons first rest ih =>
      obtain ⟨k, w⟩ := first
      rw [insertMember] at h
      split at h
      · simpa using h
      split at h
      · rcases List.mem_cons.mp h with h | h
        · exact .inl h
        · exact .inr (List.mem_cons_of_mem _ h)
      · rcases List.mem_cons.mp h with rfl | h
        · exact .inr List.mem_cons_self
        · exact (ih h).imp_right (List.mem_cons_of_mem _)

/-- A member goes to its place, or replaces the one that has its name. -/
theorem SortedMembers.insertMember (h : SortedMembers members) (name : String) (v : Value) :
    SortedMembers (insertMember name v members) := by
  induction members with
  | nil => exact List.pairwise_singleton _ _
  | cons first rest ih =>
      obtain ⟨k, w⟩ := first
      obtain ⟨hFirst, hRest⟩ := List.pairwise_cons.mp h
      rw [Value.insertMember]
      split
      · rename_i hBefore
        refine List.pairwise_cons.mpr ⟨?_, h⟩
        rintro m (_ | ⟨_, hm⟩)
        · exact hBefore
        · exact lt_trans hBefore (hFirst m hm)
      split
      · rename_i hSame
        subst hSame
        exact List.pairwise_cons.mpr ⟨hFirst, hRest⟩
      · rename_i hNotBefore hNotSame
        have hAfter : k < name := lt_of_le_of_ne (not_lt.mp hNotBefore) (Ne.symm hNotSame)
        refine List.pairwise_cons.mpr ⟨fun m hm => ?_, ih hRest⟩
        rcases mem_of_mem_insertMember hm with rfl | hm
        · exact hAfter
        · exact hFirst m hm

/-- A name behind all others is inserted at the end. -/
theorem insertMember_of_forall_lt {name : String} (h : ∀ m ∈ members, m.1 < name) (v : Value) :
    insertMember name v members = members ++ [(name, v)] := by
  induction members with
  | nil => rfl
  | cons first rest ih =>
      obtain ⟨k, w⟩ := first
      have hAfter : k < name := h (k, w) List.mem_cons_self
      rw [insertMember, if_neg (lt_asymm hAfter), if_neg (ne_of_gt hAfter),
        ih fun m hm => h m (List.mem_cons_of_mem _ hm)]
      rfl

/-- Inserting a new member keeps all others. -/
theorem insertMember_perm {name : String} (h : name ∉ members.map (·.1)) (v : Value) :
    (insertMember name v members).Perm ((name, v) :: members) := by
  induction members with
  | nil => exact .refl _
  | cons first rest ih =>
      obtain ⟨k, w⟩ := first
      simp only [List.map_cons, List.mem_cons, not_or] at h
      rw [insertMember, if_neg h.1]
      split
      · exact .refl _
      · exact ((ih h.2).cons _).trans (.swap _ _ _)

/-- The last member is sorted in last, so it wins over earlier ones of its name. -/
theorem sortMembers_append_singleton (m : String × Value) :
    sortMembers (members ++ [m]) = insertMember m.1 m.2 (sortMembers members) := by
  simp [sortMembers, List.foldl_append]

/-- Sorted members are in order. -/
theorem sortedMembers_sortMembers (members : List (String × Value)) :
    SortedMembers (sortMembers members) := by
  induction members using List.reverseRecOn with
  | nil => exact List.Pairwise.nil
  | append_singleton members m ih =>
      rw [sortMembers_append_singleton]
      exact ih.insertMember m.1 m.2

theorem mem_of_mem_sortMembers {m : String × Value} (h : m ∈ sortMembers members) :
    m ∈ members := by
  induction members using List.reverseRecOn with
  | nil => exact h
  | append_singleton members last ih =>
      rw [sortMembers_append_singleton] at h
      rcases mem_of_mem_insertMember h with rfl | h
      · simp
      · exact List.mem_append_left _ (ih h)

/-- Sorting members with distinct names keeps all of them. -/
theorem sortMembers_perm (h : (members.map (·.1)).Nodup) : (sortMembers members).Perm members := by
  induction members using List.reverseRecOn with
  | nil => exact .refl _
  | append_singleton members m ih =>
      rw [List.map_append, List.nodup_append] at h
      obtain ⟨hMembers, -, hDistinct⟩ := h
      have hPerm := ih hMembers
      have hNew : m.1 ∉ (sortMembers members).map (·.1) := by
        rw [(hPerm.map _).mem_iff]
        exact fun hOld => hDistinct m.1 hOld m.1 (by simp) rfl
      rw [sortMembers_append_singleton]
      exact ((insertMember_perm hNew m.2).trans (hPerm.cons _)).trans
        (List.perm_append_singleton _ _).symm

theorem SortedMembers.nodup (h : SortedMembers members) : (members.map (·.1)).Nodup :=
  List.pairwise_map.mpr (h.imp fun hLt => ne_of_lt hLt)

/-- Members that are in order stay as they are. -/
theorem SortedMembers.sortMembers_eq (h : SortedMembers members) : sortMembers members = members := by
  induction members using List.reverseRecOn with
  | nil => rfl
  | append_singleton members m ih =>
      obtain ⟨hMembers, -, hLast⟩ := List.pairwise_append.mp h
      rw [sortMembers_append_singleton, ih hMembers,
        insertMember_of_forall_lt fun n hn => hLast n hn m (by simp)]

/-- Members with distinct names have a single sorted order. -/
theorem sortMembers_eq_of_perm (hPerm : members.Perm sorted) (hSorted : SortedMembers sorted) :
    sortMembers members = sorted := by
  have hNodup : (members.map (·.1)).Nodup := by
    rw [(hPerm.map _).nodup_iff]
    exact hSorted.nodup
  refine ((sortMembers_perm hNodup).trans hPerm).eq_of_pairwise (fun a b _ _ hab hba => ?_)
    (sortedMembers_sortMembers members) hSorted
  exact absurd hab (lt_asymm hba)

mutual

/-- Whether the members of every object in a value are sorted. -/
def IsCanonical : Value → Prop
  | .array items => ItemsCanonical items
  | .object members => SortedMembers members ∧ MembersCanonical members
  | _ => True

/-- Whether all items are in canonical form. -/
def ItemsCanonical : List Value → Prop
  | [] => True
  | v :: rest => v.IsCanonical ∧ ItemsCanonical rest

/-- Whether the values of all members are in canonical form. -/
def MembersCanonical : List (String × Value) → Prop
  | [] => True
  | (_, v) :: rest => v.IsCanonical ∧ MembersCanonical rest

end

theorem membersCanonical_iff : MembersCanonical members ↔ ∀ m ∈ members, m.2.IsCanonical := by
  induction members with
  | nil => simp [MembersCanonical]
  | cons m rest ih => simp [MembersCanonical, ih]

mutual

/-- A value in canonical form is its own canonical form. -/
theorem IsCanonical.canonical_eq : ∀ {v : Value}, v.IsCanonical → v.canonical = v
  | .null, _ => rfl
  | .bool _, _ => rfl
  | .number _, _ => rfl
  | .string _, _ => rfl
  | .array items, h => by rw [canonical, ItemsCanonical.canonicalItems_eq h]
  | .object members, h => by
      rw [canonical, MembersCanonical.canonicalMembers_eq h.2, h.1.sortMembers_eq]

theorem ItemsCanonical.canonicalItems_eq : ∀ {items : List Value}, ItemsCanonical items →
    canonicalItems items = items
  | [], _ => rfl
  | v :: rest, h => by
      rw [canonicalItems, IsCanonical.canonical_eq h.1, ItemsCanonical.canonicalItems_eq h.2]

theorem MembersCanonical.canonicalMembers_eq : ∀ {members : List (String × Value)},
    MembersCanonical members → canonicalMembers members = members
  | [], _ => rfl
  | (k, v) :: rest, h => by
      rw [canonicalMembers, IsCanonical.canonical_eq h.1, MembersCanonical.canonicalMembers_eq h.2]

end

mutual

/-- By induction on the value: the canonical form is canonical throughout. -/
theorem isCanonical_canonical : ∀ v : Value, v.canonical.IsCanonical
  | .null => trivial
  | .bool _ => trivial
  | .number _ => trivial
  | .string _ => trivial
  | .array items => itemsCanonical_canonicalItems items
  | .object members => by
      refine ⟨sortedMembers_sortMembers _, membersCanonical_iff.mpr fun m hm => ?_⟩
      exact membersCanonical_iff.mp (membersCanonical_canonicalMembers members) m
        (mem_of_mem_sortMembers hm)

theorem itemsCanonical_canonicalItems : ∀ items : List Value, ItemsCanonical (canonicalItems items)
  | [] => trivial
  | v :: rest => ⟨isCanonical_canonical v, itemsCanonical_canonicalItems rest⟩

theorem membersCanonical_canonicalMembers : ∀ members : List (String × Value),
    MembersCanonical (canonicalMembers members)
  | [] => trivial
  | (_, v) :: rest => ⟨isCanonical_canonical v, membersCanonical_canonicalMembers rest⟩

end

/-- Taking the canonical form twice changes nothing. -/
@[simp]
theorem canonical_canonical (v : Value) : v.canonical.canonical = v.canonical :=
  (isCanonical_canonical v).canonical_eq

theorem canonicalItems_map {α : Type} (write : α → Value) (l : List α) :
    canonicalItems (l.map write) = l.map fun a => (write a).canonical := by
  induction l with
  | nil => rfl
  | cons a l ih => simp only [List.map_cons, canonicalItems, ih]

theorem canonicalMembers_append (first rest : List (String × Value)) :
    canonicalMembers (first ++ rest) = canonicalMembers first ++ canonicalMembers rest := by
  induction first with
  | nil => rfl
  | cons m first ih => simp only [List.cons_append, canonicalMembers, ih]

/-- A member that may be absent is absent from the canonical form as well. -/
theorem canonicalMembers_optional {α : Type} (name : String) (write : α → Value) (a? : Option α) :
    canonicalMembers (optional name write a?) = optional name (fun a => (write a).canonical) a? := by
  cases a? with
  | none => rfl
  | some a => rfl

theorem canonicalMembers_optional_of_canonical {α : Type} {name : String} {write : α → Value}
    {a? : Option α} (h : ∀ a ∈ a?, (write a).canonical = write a) :
    canonicalMembers (optional name write a?) = optional name write a? := by
  cases a? with
  | none => rfl
  | some a => simp only [optional, canonicalMembers, h a rfl]

/-- The canonical form has the names that were there. -/
theorem names_canonicalMembers (members : List (String × Value)) :
    (canonicalMembers members).map (·.1) = members.map (·.1) := by
  induction members with
  | nil => rfl
  | cons m rest ih => simp only [canonicalMembers, List.map_cons, ih]

/-- Such a member adds its name or none. -/
theorem names_optional {α : Type} (name : String) (write : α → Value) (a? : Option α) :
    ((optional name write a?).map (·.1)).Sublist [name] := by
  cases a? with
  | none => exact List.nil_sublist _
  | some a => exact List.Sublist.refl _

/-- Members whose names are some of a sorted list, in its order, are sorted. -/
theorem sortedMembers_of_sublist {members : List (String × Value)} {names : List String}
    (hNames : (members.map (·.1)).Sublist names) (hSorted : names.Pairwise (· < ·)) :
    SortedMembers members :=
  List.pairwise_map.mp (hSorted.sublist hNames)

end RemoteSigning.Json.Value
