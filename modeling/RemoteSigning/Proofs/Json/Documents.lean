import RemoteSigning.Proofs.Json.Integers
import RemoteSigning.Proofs.Json.Strings

/-!
# Values read back

The compact text of a value is read as the tree of that value, if all its numbers are integers in
the exact range. The statement allows any rest of the text that cannot belong to a number, so it
serves for items, members and whole texts alike.
-/

namespace RemoteSigning.Json

open Number Text

mutual

/-- Whether all numbers in a value satisfy a condition. -/
def Value.EveryNumber (p : Numeral → Prop) : Value → Prop
  | .number n => p n
  | .array items => Value.EveryNumberItems p items
  | .object members => Value.EveryNumberMembers p members
  | _ => True

/-- Whether all numbers in some items have a property. -/
def Value.EveryNumberItems (p : Numeral → Prop) : List Value → Prop
  | [] => True
  | v :: rest => v.EveryNumber p ∧ Value.EveryNumberItems p rest

/-- Whether all numbers in the values of some members have a property. -/
def Value.EveryNumberMembers (p : Numeral → Prop) : List (String × Value) → Prop
  | [] => True
  | (_, v) :: rest => v.EveryNumber p ∧ Value.EveryNumberMembers p rest

end

/-- Whether a number is printed and read without loss. -/
def Numeral.IsExact : Numeral → Prop
  | .integer n => InExactRange n
  | .real _ => False

/-- Whether a character can be the first of a value: it is neither blank nor a closing bracket. -/
def StartsValue (c : Char) : Prop := isBlank (some c) = false ∧ c ≠ ']' ∧ c ≠ '}'

instance : DecidablePred StartsValue := fun _ => inferInstanceAs (Decidable (_ ∧ _ ∧ _))

/-- Whether a character can be the first of a number. -/
def StartsNumber (c : Char) : Prop := c = '-' ∨ (digit? (some c)).isSome

/-- A property of characters that fails here holds of no character that starts a number. -/
theorem StartsNumber.ne {c d : Char} (h : StartsNumber c) (hSign : d ≠ '-')
    (hDigit : digit? (some d) = none) : c ≠ d := by
  rintro rfl
  rcases h with h | h
  · exact hSign h
  · simp [hDigit] at h

theorem StartsNumber.startsValue {c : Char} (h : StartsNumber c) : StartsValue c := by
  have hSpace : c ≠ ' ' := h.ne (by decide) (by decide)
  have hTab : c ≠ '\t' := h.ne (by decide) (by decide)
  have hLine : c ≠ '\n' := h.ne (by decide) (by decide)
  have hReturn : c ≠ '\r' := h.ne (by decide) (by decide)
  refine ⟨?_, h.ne (by decide) (by decide), h.ne (by decide) (by decide)⟩
  simp [isBlank, hSpace, hTab, hLine, hReturn]

/-- The text of an integer starts like a number. -/
theorem exists_integerText_eq_cons (n : Int) :
    ∃ c cs, integerText n = c :: cs ∧ StartsNumber c := by
  unfold integerText
  split
  · exact ⟨_, _, rfl, .inl rfl⟩
  · obtain ⟨c, cs, hDigits, -⟩ := exists_natDigits_eq_cons n.natAbs
    obtain ⟨d, hd⟩ := digit?_of_mem_natDigits (hDigits ▸ List.mem_cons_self)
    exact ⟨c, cs, hDigits, .inr (by simp [hd])⟩

/-- The text of a value starts like a value. -/
theorem exists_compactChars_eq_cons {v : Value} (hv : v.EveryNumber Numeral.IsExact) :
    ∃ c cs, v.compactChars = c :: cs ∧ StartsValue c := by
  cases v with
  | null => exact ⟨_, _, rfl, by decide⟩
  | bool b => cases b <;> exact ⟨_, _, rfl, by decide⟩
  | number k =>
      cases k with
      | integer n =>
          obtain ⟨c, cs, hText, hc⟩ := exists_integerText_eq_cons n
          exact ⟨c, cs, hText, hc.startsValue⟩
      | real x => exact hv.elim
  | string s => exact ⟨_, _, rfl, by decide⟩
  | array items => cases items <;> exact ⟨_, _, rfl, by decide⟩
  | object members => cases members <;> exact ⟨_, _, rfl, by decide⟩

theorem skipBlanks_cons {c : Option Char} (h : isBlank c = false) (rest : Source) :
    skipBlanks (c :: rest) = c :: rest := by
  simp [skipBlanks, h]

/-- After the first character of a number, a number is read. -/
theorem readValue_number {c : Char} (h : StartsNumber c) (n : Nat) (cs : Source) :
    readValue (n + 1) (some c :: cs) =
      match readNumber (some c :: cs) with
      | .ok (t, rest) => (.number t.value, some rest)
      | .error (f, skipped) => (.brokenScalar f skipped, none) := by
  have hStart : c = '-' ∨ (digit? (some c)).isSome := h
  have hNull : c ≠ 'n' := h.ne (by decide) (by decide)
  have hTrue : c ≠ 't' := h.ne (by decide) (by decide)
  have hFalse : c ≠ 'f' := h.ne (by decide) (by decide)
  have hQuote : c ≠ '"' := h.ne (by decide) (by decide)
  have hBracket : c ≠ '[' := h.ne (by decide) (by decide)
  have hBrace : c ≠ '{' := h.ne (by decide) (by decide)
  cases hRead : readNumber (some c :: cs) <;>
    simp [readValue, skipBlanks_cons h.startsValue.1, hNull, hTrue, hFalse, hQuote, hBracket,
      hBrace, hStart, hRead]

/-- After a quotation mark, a string is read up to its end. -/
theorem readValue_string {source rest : Source} {ps : List Piece} {s : String}
    (hRead : readPieces source = (ps, .closed, rest)) (hString : stringOf .closed ps = .ok s)
    (n : Nat) : readValue (n + 1) (some '"' :: source) = (.string (.ok s), some rest) := by
  simp [readValue, skipBlanks, isBlank, hRead, hString, StringEnd.fault]

/-- After an opening bracket and the start of a value, items are read. -/
theorem readValue_array {c : Char} (h : StartsValue c) (n : Nat) (source : Source) :
    readValue (n + 1) (some '[' :: some c :: source) =
      (.array (readItems n (some c :: source)).1, (readItems n (some c :: source)).2) := by
  simp [readValue, skipBlanks_cons (c := some '[') rfl, skipBlanks_cons h.1, h.2.1]

/-- After an opening brace and a quotation mark, members are read. -/
theorem readValue_object (n : Nat) (source : Source) :
    readValue (n + 1) (some '{' :: some '"' :: source) =
      (.object (readMembers n (some '"' :: source)).1, (readMembers n (some '"' :: source)).2) := by
  simp [readValue, skipBlanks, isBlank]

/-- After the last item comes the closing bracket. -/
theorem readItems_last {n : Nat} {source rest : Source} {item : Document}
    (h : readValue n source = (item, some (some ']' :: rest))) :
    readItems (n + 1) source = (.next item .closed, some rest) := by
  simp [readItems, h, skipBlanks, isBlank]

/-- After another item come a comma and the next one. -/
theorem readItems_next {n : Nat} {source rest : Source} {item : Document} {c : Char}
    (h : readValue n source = (item, some (some ',' :: some c :: rest))) (hc : StartsValue c) :
    readItems (n + 1) source =
      (.next item (readItems n (some c :: rest)).1, (readItems n (some c :: rest)).2) := by
  simp [readItems, h, skipBlanks_cons (c := some ',') rfl, skipBlanks_cons hc.1, hc.2.1]

section Member

variable {n : Nat} {source afterName rest : Source} {ps : List Piece} {k : String} {value : Document}
  (hName : readPieces source = (ps, .closed, some ':' :: afterName))
  (hString : stringOf .closed ps = .ok k)

include hName hString

/-- After the last member comes the closing brace. -/
theorem readMembers_last (h : readValue n afterName = (value, some (some '}' :: rest))) :
    readMembers (n + 1) (some '"' :: source) = (.next (.ok k) value .closed, some rest) := by
  simp [readMembers, hName, hString, h, StringEnd.fault, skipBlanks, isBlank]

/-- After another member come a comma and the next one. -/
theorem readMembers_next (h : readValue n afterName = (value, some (some ',' :: some '"' :: rest))) :
    readMembers (n + 1) (some '"' :: source) =
      (.next (.ok k) value (readMembers n (some '"' :: rest)).1,
        (readMembers n (some '"' :: rest)).2) := by
  simp [readMembers, hName, hString, h, StringEnd.fault, skipBlanks, isBlank]

end Member

/-- The text of items between the brackets. -/
def itemsText : List Value → List Char
  | [] => []
  | v :: rest => v.compactChars ++ Value.compactItems rest

/-- The text of members between the braces. -/
def membersText : List (String × Value) → List Char
  | [] => []
  | (k, v) :: rest => quote k ++ ':' :: v.compactChars ++ Value.compactMembers rest

theorem compactChars_array (v : Value) (vs : List Value) :
    (Value.array (v :: vs)).compactChars = '[' :: itemsText (v :: vs) := by
  simp [Value.compactChars, itemsText]

theorem compactChars_object (m : String × Value) (ms : List (String × Value)) :
    (Value.object (m :: ms)).compactChars = '{' :: membersText (m :: ms) := by
  simp [Value.compactChars, membersText]

/-- The text of an object tells the name of its first member. -/
theorem Value.name_eq_of_compact_eq {name name' : String} {v v' : Value}
    {rest rest' : List (String × Value)}
    (h : (Value.object ((name, v) :: rest)).compact = (Value.object ((name', v') :: rest')).compact) :
    name = name' := by
  rw [Value.compact, Value.compact, String.ofList_inj, compactChars_object, compactChars_object,
    List.cons.injEq, membersText, membersText, List.append_assoc, List.append_assoc] at h
  exact quote_append_inj h.2

theorem exists_itemsText_eq_cons {v : Value} (hv : v.EveryNumber Numeral.IsExact) (vs : List Value) :
    ∃ c cs, itemsText (v :: vs) = c :: cs ∧ StartsValue c := by
  obtain ⟨c, cs, hText, hc⟩ := exists_compactChars_eq_cons hv
  exact ⟨c, cs ++ Value.compactItems vs, by simp [itemsText, hText], hc⟩

/-- What can follow a value in a compact text ends a number. -/
theorem delimits_cons {c : Char} (h : c = ',' ∨ c = ']' ∨ c = '}') (rest : Source) :
    Delimits (some c :: rest) := by
  rintro _ ⟨⟩
  rcases h with rfl | rfl | rfl <;> decide

mutual

/-- The compact text of a value is read as the tree of the value. -/
theorem readValue_compactChars : ∀ (v : Value), v.EveryNumber Numeral.IsExact →
    ∀ (n : Nat), v.compactChars.length ≤ n + 1 → ∀ (rest : Source), Delimits rest →
      readValue (n + 1) (v.compactChars.map some ++ rest) = (Document.ofValue v, some rest)
  | .null, _, n, _, rest, _ => by
      simp [Value.compactChars, readValue, skipBlanks, isBlank, readLetters, Document.ofValue]
  | .bool true, _, n, _, rest, _ => by
      simp [Value.compactChars, readValue, skipBlanks, isBlank, readLetters, Document.ofValue]
  | .bool false, _, n, _, rest, _ => by
      simp [Value.compactChars, readValue, skipBlanks, isBlank, readLetters, Document.ofValue]
  | .number (.integer k), hk, n, _, rest, hRest => by
      obtain ⟨t, hRead, hValue⟩ := readNumber_integerText hk hRest
      obtain ⟨c, cs, hText, hc⟩ := exists_integerText_eq_cons k
      simp only [Value.compactChars, Numeral.text, hText, List.map_cons, List.cons_append] at hRead ⊢
      rw [readValue_number hc, hRead]
      simp only [hValue, Document.ofValue]
  | .number (.real x), hx, _, _, _, _ => hx.elim
  | .string s, _, n, _, rest, _ => by
      obtain ⟨ps, hRead, hString⟩ := readPieces_quote s rest
      exact readValue_string hRead hString n
  | .array [], _, n, _, rest, _ => by
      simp [Value.compactChars, readValue, skipBlanks, isBlank, Document.ofValue, Items.ofValues]
  | .array (v :: vs), hv, n, hn, rest, _ => by
      obtain ⟨c, cs, hText, hc⟩ := exists_itemsText_eq_cons hv.1 vs
      rw [compactChars_array] at hn ⊢
      have hItems := readItems_itemsText (v :: vs) (by simp) hv n (by simpa using hn) rest
      rw [hText] at hItems ⊢
      simp only [List.map_cons, List.cons_append] at hItems ⊢
      rw [readValue_array hc, hItems, Document.ofValue]
  | .object [], _, n, _, rest, _ => by
      simp [Value.compactChars, readValue, skipBlanks, isBlank, Document.ofValue, Members.ofValues]
  | .object ((k, v) :: ms), hv, n, hn, rest, _ => by
      rw [compactChars_object] at hn ⊢
      have hMembers := readMembers_membersText ((k, v) :: ms) (by simp) hv n (by simpa using hn) rest
      simp only [membersText, quote, List.map_cons, List.cons_append] at hMembers ⊢
      rw [readValue_object, hMembers, Document.ofValue]

/-- By induction on the items: what is printed for them is read as them, and nothing beyond it. -/
theorem readItems_itemsText : ∀ (items : List Value), items ≠ [] →
    Value.EveryNumberItems Numeral.IsExact items →
    ∀ (n : Nat), (itemsText items).length ≤ n → ∀ (rest : Source),
      readItems n ((itemsText items).map some ++ rest) = (Items.ofValues items, some rest)
  | [], h, _, _, _, _ => absurd rfl h
  | [v], _, hv, n, hn, rest => by
      obtain ⟨c, cs, hText, -⟩ := exists_compactChars_eq_cons hv.1
      have hLength : v.compactChars.length + 1 ≤ n := by
        simpa [itemsText, Value.compactItems] using hn
      obtain ⟨n, rfl⟩ : ∃ m, n = m + 2 := ⟨n - 2, by simp [hText] at hLength; omega⟩
      have hItem := readValue_compactChars v hv.1 n (by omega) (some ']' :: rest)
        (delimits_cons (by decide) rest)
      have hSource : (itemsText [v]).map some ++ rest =
          v.compactChars.map some ++ some ']' :: rest := by
        simp [itemsText, Value.compactItems]
      rw [hSource, readItems_last hItem, Items.ofValues, Items.ofValues]
  | v :: w :: vs, _, hv, n, hn, rest => by
      obtain ⟨c, cs, hText, -⟩ := exists_compactChars_eq_cons hv.1
      obtain ⟨d, ds, hNext, hd⟩ := exists_itemsText_eq_cons hv.2.1 vs
      have hLength : v.compactChars.length + (itemsText (w :: vs)).length + 1 ≤ n := by
        simpa [itemsText, Value.compactItems, Nat.add_assoc] using hn
      obtain ⟨n, rfl⟩ : ∃ m, n = m + 2 := ⟨n - 2, by simp [hText] at hLength; omega⟩
      have hItem := readValue_compactChars v hv.1 n (by omega)
        (some ',' :: ((itemsText (w :: vs)).map some ++ rest)) (delimits_cons (by decide) _)
      have hRest := readItems_itemsText (w :: vs) (by simp) hv.2 (n + 1) (by omega) rest
      have hSource : (itemsText (v :: w :: vs)).map some ++ rest =
          v.compactChars.map some ++ some ',' :: ((itemsText (w :: vs)).map some ++ rest) := by
        simp [itemsText, Value.compactItems]
      rw [hNext] at hItem hRest hSource
      simp only [List.map_cons, List.cons_append] at hItem hRest hSource
      rw [hSource, readItems_next hItem hd, hRest]
      simp only [Items.ofValues]

/-- Written members are read as the trees of their values, each under its name. -/
theorem readMembers_membersText : ∀ (members : List (String × Value)), members ≠ [] →
    Value.EveryNumberMembers Numeral.IsExact members →
    ∀ (n : Nat), (membersText members).length ≤ n → ∀ (rest : Source),
      readMembers n ((membersText members).map some ++ rest) = (Members.ofValues members, some rest)
  | [], h, _, _, _, _ => absurd rfl h
  | [(k, v)], _, hv, n, hn, rest => by
      obtain ⟨c, cs, hText, -⟩ := exists_compactChars_eq_cons hv.1
      have hLength : v.compactChars.length + 1 ≤ n := by
        simp [membersText, Value.compactMembers, quote] at hn
        omega
      obtain ⟨n, rfl⟩ : ∃ m, n = m + 2 := ⟨n - 2, by simp [hText] at hLength; omega⟩
      have hValue := readValue_compactChars v hv.1 n (by omega) (some '}' :: rest)
        (delimits_cons (by decide) rest)
      obtain ⟨ps, hName, hString⟩ :=
        readPieces_quote k (some ':' :: (v.compactChars.map some ++ some '}' :: rest))
      have hSource : (membersText [(k, v)]).map some ++ rest =
          some '"' :: ((k.toList.flatMap escape ++ ['"']).map some ++
            some ':' :: (v.compactChars.map some ++ some '}' :: rest)) := by
        simp [membersText, Value.compactMembers, quote]
      rw [hSource, readMembers_last hName hString hValue, Members.ofValues, Members.ofValues]
  | (k, v) :: (l, w) :: ms, _, hv, n, hn, rest => by
      obtain ⟨c, cs, hText, -⟩ := exists_compactChars_eq_cons hv.1
      have hLength : v.compactChars.length + (membersText ((l, w) :: ms)).length + 1 ≤ n := by
        simp [membersText, Value.compactMembers, quote] at hn ⊢
        omega
      obtain ⟨n, rfl⟩ : ∃ m, n = m + 2 := ⟨n - 2, by simp [hText] at hLength; omega⟩
      have hValue := readValue_compactChars v hv.1 n (by omega)
        (some ',' :: ((membersText ((l, w) :: ms)).map some ++ rest)) (delimits_cons (by decide) _)
      have hRest := readMembers_membersText ((l, w) :: ms) (by simp) hv.2 (n + 1) (by omega) rest
      obtain ⟨ps, hName, hString⟩ := readPieces_quote k
        (some ':' :: (v.compactChars.map some ++
          some ',' :: ((membersText ((l, w) :: ms)).map some ++ rest)))
      have hSource : (membersText ((k, v) :: (l, w) :: ms)).map some ++ rest =
          some '"' :: ((k.toList.flatMap escape ++ ['"']).map some ++
            some ':' :: (v.compactChars.map some ++
              some ',' :: ((membersText ((l, w) :: ms)).map some ++ rest))) := by
        simp [membersText, Value.compactMembers, quote]
      have hNext : (membersText ((l, w) :: ms)).map some ++ rest =
          some '"' :: ((l.toList.flatMap escape ++
            ('"' :: ':' :: (w.compactChars ++ Value.compactMembers ms))).map some ++ rest) := by
        simp [membersText, quote]
      rw [hNext] at hValue hRest hName hSource
      rw [hSource, readMembers_next hName hString hValue, hRest]
      simp only [Members.ofValues]

end

/-- The compact text of a value holds the tree of the value and nothing more. -/
theorem read_compact {v : Value} (hv : v.EveryNumber Numeral.IsExact) :
    Whole.read (source v.compact) = ⟨Document.ofValue v, false⟩ := by
  have hSource : source v.compact = v.compactChars.map some ++ [] := by
    simp [source, Value.compact]
  have hRead := readValue_compactChars v hv (2 * v.compactChars.length + 1) (by omega) []
    (by simp [Delimits])
  simp only [Whole.read, hSource, List.append_nil, List.length_map] at hRead ⊢
  rw [hRead]
  rfl

end RemoteSigning.Json
