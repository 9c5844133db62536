import RemoteSigning.Text.Search
import Mathlib.Data.List.DropRight
import Mathlib.Data.List.Forall2
import Mathlib.Data.List.Infix

/-!
# Lists in parts

What the parts of a list have, into which it is split or of which it is joined, and what reading
every item of a list takes.
-/

namespace RemoteSigning.Items

variable {α β : Type}

/-- What all items of a list have is decided by going through the list, also where a library decides
it for every value of the type of the items. -/
scoped instance (priority := 20000) decidableForallMem (p : α → Prop) [DecidablePred p]
    (xs : List α) : Decidable (∀ x ∈ xs, p x) :=
  List.decidableBAll p xs

theorem ne_of_notMem [BEq α] [LawfulBEq α] {xs : List α} {sign : α} (h : sign ∉ xs) :
    ∀ x ∈ xs, (x != sign) = true := by
  intro x hx
  rw [bne_iff_ne]
  rintro rfl
  exact h hx

/-- All items of a list are read exactly if each of them is. -/
theorem mapM_eq_some {f : α → Option β} {xs : List α} {ys : List β} :
    xs.mapM f = some ys ↔ List.Forall₂ (fun x y => f x = some y) xs ys := by
  induction xs generalizing ys with
  | nil => simp [eq_comm]
  | cons x xs ih =>
    rw [List.mapM_cons, List.forall₂_cons_left_iff]
    constructor
    · intro h
      obtain ⟨y, hHead, h⟩ := Option.bind_eq_some_iff.mp h
      obtain ⟨zs, hTail, h⟩ := Option.bind_eq_some_iff.mp h
      exact ⟨y, zs, hHead, ih.mp hTail, (Option.some.inj h).symm⟩
    · rintro ⟨y, zs, hHead, hTail, rfl⟩
      rw [hHead, ih.mpr hTail]
      rfl

theorem exists_left_of_mem {R : α → β → Prop} {xs : List α} {ys : List β} {y : β}
    (h : List.Forall₂ R xs ys) (hMem : y ∈ ys) : ∃ x ∈ xs, R x y := by
  induction h with
  | nil => cases hMem
  | cons hHead _ ih =>
    obtain rfl | hMem := List.mem_cons.mp hMem
    · exact ⟨_, List.mem_cons_self, hHead⟩
    · obtain ⟨x, hx, hR⟩ := ih hMem
      exact ⟨x, List.mem_cons_of_mem _ hx, hR⟩

/-- The parts of a list are in it, and have no item that separates them. -/
theorem sublist_of_mem_splitOnP {p : α → Bool} {xs part : List α} (h : part ∈ xs.splitOnP p) :
    part.Sublist xs ∧ ∀ x ∈ part, p x = false := by
  induction xs generalizing part with
  | nil =>
    rw [List.splitOnP_nil, List.mem_singleton] at h
    rw [h]
    exact ⟨List.Sublist.refl _, List.forall_mem_nil _⟩
  | cons y ys ih =>
    rw [List.splitOnP_cons_eq_if_modifyHead] at h
    split_ifs at h with hSeparates
    · obtain rfl | h := List.mem_cons.mp h
      · exact ⟨List.nil_sublist _, List.forall_mem_nil _⟩
      · exact (ih h).imp_left (List.Sublist.cons y)
    · obtain ⟨first, rest, hParts⟩ := List.exists_cons_of_ne_nil (List.splitOnP_ne_nil p ys)
      rw [hParts] at ih h
      obtain rfl | h := List.mem_cons.mp h
      · obtain ⟨hSub, hKept⟩ := ih List.mem_cons_self
        exact ⟨hSub.cons_cons y, List.forall_mem_cons.mpr ⟨Bool.eq_false_iff.mpr hSeparates, hKept⟩⟩
      · exact (ih (List.mem_cons_of_mem _ h)).imp_left (List.Sublist.cons y)

/-- The parts of a list have the items that do not separate them. -/
theorem of_mem_splitOnP {p : α → Bool} {xs part : List α} {x : α} (h : part ∈ xs.splitOnP p)
    (hx : x ∈ part) : x ∈ xs ∧ p x = false :=
  ⟨(sublist_of_mem_splitOnP h).1.subset hx, (sublist_of_mem_splitOnP h).2 x hx⟩

/-- What is joined of parts has the items of the parts and of what stands between them. -/
theorem mem_intercalate {sep : List α} {parts : List (List α)} {x : α}
    (h : x ∈ sep.intercalate parts) : x ∈ sep ∨ ∃ part ∈ parts, x ∈ part := by
  induction parts with
  | nil =>
    rw [List.intercalate_nil] at h
    cases h
  | cons first rest ih =>
    cases rest with
    | nil =>
      rw [List.intercalate_singleton] at h
      exact .inr ⟨first, List.mem_cons_self, h⟩
    | cons second rest =>
      rw [List.intercalate_cons_cons, List.mem_append, List.mem_append] at h
      obtain (h | h) | h := h
      · exact .inr ⟨first, List.mem_cons_self, h⟩
      · exact .inl h
      · obtain h | ⟨part, hPart, hx⟩ := ih h
        · exact .inl h
        · exact .inr ⟨part, List.mem_cons_of_mem _ hPart, hx⟩

/-- What is dropped at both ends of a list does not matter where it follows the list. -/
theorem dropWhile_ends {p : α → Bool} {xs ending : List α} (hKept : ∀ x ∈ xs, p x = false)
    (hEnding : ∀ x ∈ ending, p x = true) :
    (((xs ++ ending).dropWhile p).reverse.dropWhile p).reverse = xs := by
  have hSelf {ys : List α} (hKept : ∀ y ∈ ys, p y = false) : ys.dropWhile p = ys := by
    cases ys with
    | nil => rfl
    | cons y ys =>
      exact List.dropWhile_cons_of_neg (Bool.eq_false_iff.mp (hKept y List.mem_cons_self))
  cases xs with
  | nil =>
    rw [List.nil_append, ← List.append_nil ending, List.dropWhile_append_of_pos hEnding]
    rfl
  | cons x xs =>
    rw [List.cons_append,
      List.dropWhile_cons_of_neg (Bool.eq_false_iff.mp (hKept x List.mem_cons_self)),
      ← List.cons_append, List.reverse_append,
      List.dropWhile_append_of_pos fun y hy => hEnding y (List.mem_reverse.mp hy),
      hSelf fun y hy => hKept y (List.mem_reverse.mp hy), List.reverse_reverse]

/-- What is dropped at the end of a list is not looked for in front of it. -/
theorem rdropWhile_append {p : α → Bool} {xs : List α} (hKept : ∀ x ∈ xs, p x = false)
    (ys : List α) : (xs ++ ys).rdropWhile p = xs ++ ys.rdropWhile p := by
  induction ys using List.reverseRecOn with
  | nil =>
    rw [List.append_nil, List.rdropWhile_nil, List.append_nil, List.rdropWhile_eq_self_iff]
    exact fun hSome => Bool.eq_false_iff.mp (hKept _ (List.getLast_mem hSome))
  | append_singleton ys y ih =>
    rw [← List.append_assoc, List.rdropWhile_concat, List.rdropWhile_concat, ih]
    split <;> simp only [List.append_assoc]

/-- A list has one part behind the last sign in it. -/
theorem eq_of_append_cons_eq {sign : α} {xs ys as bs : List α} (ha : sign ∉ as) (hb : sign ∉ bs)
    (h : xs ++ sign :: as = ys ++ sign :: bs) : xs = ys ∧ as = bs := by
  simp only [List.append_eq_append_iff, List.cons_eq_append_iff, List.cons_eq_cons] at h
  obtain ⟨gap, rfl, ⟨rfl, -, rfl⟩ | ⟨gap, rfl, rfl⟩⟩ | ⟨gap, rfl, ⟨rfl, -, rfl⟩ | ⟨gap, rfl, rfl⟩⟩ := h
  · exact ⟨(List.append_nil _).symm, rfl⟩
  · exact absurd (List.mem_append_right gap List.mem_cons_self) ha
  · exact ⟨List.append_nil _, rfl⟩
  · exact absurd (List.mem_append_right gap List.mem_cons_self) hb

end RemoteSigning.Items

namespace RemoteSigning.Text

/-- Searching characters for others tells whether they occur in a row. -/
theorem occurs_iff (part cs : List Char) : occurs part cs = true ↔ part <:+: cs := by
  induction cs with
  | nil => simp [occurs]
  | cons c rest ih => simp [occurs, ih, List.infix_cons_iff]

end RemoteSigning.Text
