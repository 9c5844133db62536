import RemoteSigning.Text.Utf8
import Mathlib.Tactic.SplitIfs

/-!
# Texts as octets and back

The octets of a text are read as the characters of the text, so reading octets that a text was
written as is reading the text.
-/

namespace RemoteSigning.Text

variable {a b c d : UInt8}

theorem between_iff (low high : UInt8) :
    (decide (low ≤ a) && decide (a ≤ high)) = true ↔
      low.toNat ≤ a.toNat ∧ a.toNat ≤ high.toNat := by
  simp only [Bool.and_eq_true, decide_eq_true_eq, UInt8.le_iff_toNat_le]

/-- The octets that continue a character. -/
theorem isContinuation_iff : isContinuation b = true ↔ 128 ≤ b.toNat ∧ b.toNat ≤ 191 :=
  between_iff 0x80 0xBF

/-- Four leads narrow what may stand second; after any other it is a continuation octet. -/
theorem secondAllowed_iff :
    secondAllowed a b = true ↔ isContinuation b ∧
      (a.toNat = 0xE0 → 0xA0 ≤ b.toNat) ∧ (a.toNat = 0xED → b.toNat ≤ 0x9F) ∧
      (a.toNat = 0xF0 → 0x90 ≤ b.toNat) ∧ (a.toNat = 0xF4 → b.toNat ≤ 0x8F) := by
  simp only [secondAllowed, beq_iff_eq, ← UInt8.toNat_inj, UInt8.reduceToNat]
  split_ifs <;> simp only [isContinuation_iff, between_iff, UInt8.reduceToNat] <;> omega

/-- A character of ASCII is read from one octet. -/
theorem positions_one (ha : a.toNat < 128) (rest : List UInt8) :
    positions (a :: rest) = some (Char.ofNat a.toNat) :: positions rest := by
  have hOne : a < 0x80 := UInt8.lt_iff_toNat_lt.mpr ha
  rw [positions.eq_def]
  simp only [hOne, if_true]

/-- A character is read from two octets if the first one announces one more. -/
theorem positions_two (ha : 0xC2 ≤ a.toNat ∧ a.toNat ≤ 0xDF) (hb : isContinuation b)
    (rest : List UInt8) :
    positions (a :: b :: rest) =
      some (Char.ofNat (a.toNat % 32 * 64 + payload b)) :: positions rest := by
  have hOne : ¬ a < 0x80 := by
    simp only [UInt8.lt_iff_toNat_lt, UInt8.reduceToNat]
    omega
  have hTwo := (between_iff 0xC2 0xDF).mpr ha
  rw [positions.eq_def]
  simp only [hOne, hTwo, hb, if_true, if_false]

/-- A character is read from three octets if the second one is allowed after the first. -/
theorem positions_three (ha : 0xE0 ≤ a.toNat ∧ a.toNat ≤ 0xEF) (hb : secondAllowed a b)
    (hc : isContinuation c) (rest : List UInt8) :
    positions (a :: b :: c :: rest) =
      some (Char.ofNat (a.toNat % 16 * 4096 + payload b * 64 + payload c)) :: positions rest := by
  have hOne : ¬ a < 0x80 := by
    simp only [UInt8.lt_iff_toNat_lt, UInt8.reduceToNat]
    omega
  have hTwo : ¬ (0xC2 ≤ a && a ≤ 0xDF) = true := by
    simp only [between_iff, UInt8.reduceToNat]
    omega
  have hThree := (between_iff 0xE0 0xEF).mpr ha
  rw [positions.eq_def]
  simp only [hOne, hTwo, hThree, hb, hc, if_true, if_false, Bool.false_eq_true]

/-- The same with four octets. -/
theorem positions_four (ha : 0xF0 ≤ a.toNat ∧ a.toNat ≤ 0xF4) (hb : secondAllowed a b)
    (hc : isContinuation c) (hd : isContinuation d) (rest : List UInt8) :
    positions (a :: b :: c :: d :: rest) =
      some (Char.ofNat (a.toNat % 8 * 262144 + payload b * 4096 + payload c * 64 + payload d))
        :: positions rest := by
  have hOne : ¬ a < 0x80 := by
    simp only [UInt8.lt_iff_toNat_lt, UInt8.reduceToNat]
    omega
  have hTwo : ¬ (0xC2 ≤ a && a ≤ 0xDF) = true := by
    simp only [between_iff, UInt8.reduceToNat]
    omega
  have hThree : ¬ (0xE0 ≤ a && a ≤ 0xEF) = true := by
    simp only [between_iff, UInt8.reduceToNat]
    omega
  have hFour := (between_iff 0xF0 0xF4).mpr ha
  rw [positions.eq_def]
  simp only [hOne, hTwo, hThree, hFour, hb, hc, hd, if_true, if_false, Bool.false_eq_true]

/-- Numbers below those of the surrogates are numbers of characters. -/
theorem toNat_ofNat {n : Nat} (h : n < 0xD800) : (Char.ofNat n).toNat = n := by
  rw [Char.ofNat, dif_pos (Or.inl h)]
  rfl

/-- An ASCII character has the number of its octet. -/
theorem toNat_octet {x : Char} (h : x.toNat < 0x80) : (UInt8.ofNat x.toNat).toNat = x.toNat :=
  UInt8.toNat_ofNat_of_lt' (Nat.lt_trans h (by decide))

theorem charOctets_of_lt {x : Char} (h : x.toNat < 0x80) :
    charOctets x = [UInt8.ofNat x.toNat] := by
  have hOne : x.val.toNat ≤ 0x7F := Nat.le_of_lt_succ h
  simp only [charOctets, String.utf8EncodeChar, Char.toNat, hOne, if_true]

/-- A character beyond ASCII has no octet of ASCII. -/
theorem le_of_mem_charOctets {x : Char} (h : 0x80 ≤ x.toNat) (hb : b ∈ charOctets x) :
    0x80 ≤ b.toNat := by
  have hOctet {k : Nat} (hk : k < 256) : (UInt8.ofNat k).toNat = k := UInt8.toNat_ofNat_of_lt hk
  simp only [charOctets, String.utf8EncodeChar, Char.toNat] at h hb
  generalize x.val.toNat = n at h hb
  split_ifs at hb with hOne hTwo hThree
  · omega
  all_goals
    simp only [List.mem_cons, List.not_mem_nil, or_false] at hb
    obtain rfl | rfl | rfl | rfl := hb <;> rw [hOctet (by omega)] <;> omega

/-- An ASCII character that a text does not have has no octet in it. -/
theorem octet_notMem {xs : List Char} {sign : Char} (hSign : sign.toNat < 0x80)
    (h : ∀ x ∈ xs, x.toNat < 0x80 ∧ x ≠ sign) :
    UInt8.ofNat sign.toNat ∉ xs.flatMap charOctets := by
  intro hMem
  obtain ⟨x, hx, hOctet⟩ := List.mem_flatMap.mp hMem
  obtain ⟨hSmall, hOther⟩ := h x hx
  rw [charOctets_of_lt hSmall, List.mem_singleton] at hOctet
  have hNumber := congrArg UInt8.toNat hOctet
  rw [toNat_octet hSign, toNat_octet hSmall] at hNumber
  exact hOther (by rw [← Char.ofNat_toNat x, ← hNumber, Char.ofNat_toNat])

/-- A text in ASCII has as many octets as characters. -/
theorem length_octets {text : String} (h : ∀ c ∈ text.toList, c.toNat < 0x80) :
    (octets text).length = text.length := by
  have hOne : text.toList.map (fun c => (charOctets c).length) = text.toList.map fun _ => 1 :=
    List.map_congr_left fun c hc => by rw [charOctets_of_lt (h c hc), List.length_singleton]
  rw [octets, List.length_flatMap, hOne, List.map_const', List.sum_replicate_nat, Nat.mul_one,
    String.length_toList]

/-- What a character is written as is read as the character, whatever follows. Surrogates are no
characters, which is why the second octet after `0xED` is always small enough. -/
theorem positions_charOctets (x : Char) (rest : List UInt8) :
    positions (charOctets x ++ rest) = some x :: positions rest := by
  have hValid : x.toNat < 0xD800 ∨ 0xDFFF < x.toNat ∧ x.toNat < 0x110000 := x.valid
  have hOctet {k : Nat} (hk : k < 256) : (UInt8.ofNat k).toNat = k := UInt8.toNat_ofNat_of_lt hk
  have hNumber : Char.ofNat x.toNat = x := Char.ofNat_toNat x
  simp only [charOctets, String.utf8EncodeChar, Char.toNat] at hValid hNumber ⊢
  generalize x.val.toNat = n at hValid hNumber
  split_ifs with hOne hTwo hThree
  · have hLead := hOctet (k := n) (by omega)
    rw [List.singleton_append, positions_one (by omega), hLead, hNumber]
  · have hLead := hOctet (k := n / 64 % 32 + 192) (by omega)
    have hSecond := hOctet (k := n % 64 + 128) (by omega)
    rw [List.cons_append, List.singleton_append, positions_two (by omega)
      (isContinuation_iff.mpr (by omega)), payload, hLead, hSecond, ← hNumber]
    congr 3
    omega
  · have hLead := hOctet (k := n / 4096 % 16 + 224) (by omega)
    have hSecond := hOctet (k := n / 64 % 64 + 128) (by omega)
    have hThird := hOctet (k := n % 64 + 128) (by omega)
    rw [List.cons_append, List.cons_append, List.singleton_append, positions_three (by omega)
      (secondAllowed_iff.mpr ⟨isContinuation_iff.mpr (by omega), by omega⟩)
      (isContinuation_iff.mpr (by omega)), payload, payload, hLead, hSecond, hThird, ← hNumber]
    congr 3
    omega
  · have hLead := hOctet (k := n / 262144 % 8 + 240) (by omega)
    have hSecond := hOctet (k := n / 4096 % 64 + 128) (by omega)
    have hThird := hOctet (k := n / 64 % 64 + 128) (by omega)
    have hFourth := hOctet (k := n % 64 + 128) (by omega)
    rw [List.cons_append, List.cons_append, List.cons_append, List.singleton_append,
      positions_four (by omega)
        (secondAllowed_iff.mpr ⟨isContinuation_iff.mpr (by omega), by omega⟩)
        (isContinuation_iff.mpr (by omega)) (isContinuation_iff.mpr (by omega)),
      payload, payload, payload, hLead, hSecond, hThird, hFourth, ← hNumber]
    congr 3
    omega

/-- Characters are read from their octets one by one. -/
theorem positions_flatMap (cs : List Char) : positions (cs.flatMap charOctets) = cs.map some := by
  induction cs with
  | nil => rfl
  | cons x cs ih => rw [List.flatMap_cons, positions_charOctets, ih, List.map_cons]

theorem positions_octets (s : String) : positions (octets s) = source s :=
  positions_flatMap s.toList

theorem mapM_id_map_some (cs : List Char) : (cs.map some).mapM id = some cs := by
  induction cs with
  | nil => rfl
  | cons c cs ih => simp [List.mapM_cons, ih]

/-- The octets of characters are well formed. -/
theorem ofOctets?_flatMap (cs : List Char) :
    ofOctets? (cs.flatMap charOctets) = some (String.ofList cs) := by
  rw [ofOctets?, positions_flatMap, mapM_id_map_some, Option.map_some]

/-- Nothing is lost of a text that is well formed. -/
theorem ofOctetsLossy_octets (s : String) : ofOctetsLossy (octets s) = s := by
  rw [ofOctetsLossy, positions_octets, source, List.map_map]
  exact (congrArg String.ofList (List.map_id s.toList)).trans String.ofList_toList

end RemoteSigning.Text
