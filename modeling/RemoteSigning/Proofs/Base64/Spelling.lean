import RemoteSigning.Number.Power
import RemoteSigning.Proofs.Base64

/-!
# What a text of base64 spells

The form of a text, said without the groups in which it is written and read. Each symbol stands for
six bits, and together these are the bits of the octets, with zeros as far as the last symbol goes on.
What is written for octets is the one text that spells them.
-/

namespace RemoteSigning.Base64

variable {symbols text : String} {a : Alphabet} {p : Padding} {bytes : List UInt8} {vs ws : List Nat}
  {m n u v width : Nat}

/-- The bits of a number below `2 ^ width`, the highest first. -/
def bits (width n : Nat) : List Bool := (List.range width).reverse.map n.testBit

/-- The bits of octets, one octet after the other. -/
def octetBits (bytes : List UInt8) : List Bool := bytes.flatMap fun b => bits 8 b.toNat

theorem length_bits (width n : Nat) : (bits width n).length = width := by simp [bits]

theorem bits_zero (width : Nat) : bits width 0 = List.replicate width false := by
  simp [bits, List.eq_replicate_iff]

/-- The bits of two numbers, one behind the other, are those of one number. -/
theorem bits_append (u : Nat) (hv : v < 2 ^ n) :
    bits m u ++ bits n v = bits (m + n) (2 ^ n * u + v) := by
  have hHigh : (List.range m).reverse.map u.testBit =
      (List.range m).reverse.map ((2 ^ n * u + v).testBit ∘ (n + ·)) := by
    refine List.map_congr_left fun i _ => ?_
    rw [Function.comp_apply, Nat.testBit_two_pow_mul_add u hv, if_neg (by omega)]
    exact congrArg u.testBit (by omega)
  have hLow : (List.range n).reverse.map v.testBit =
      (List.range n).reverse.map (2 ^ n * u + v).testBit := by
    refine List.map_congr_left fun i hi => ?_
    have hBelow : i < n := List.mem_range.mp (List.mem_reverse.mp hi)
    rw [Nat.testBit_two_pow_mul_add u hv, if_pos hBelow]
  rw [bits, bits, bits, Nat.add_comm m n, List.range_add, List.reverse_append, List.map_append,
    ← List.map_reverse, List.map_map, hHigh, hLow]

/-- A number that fits is determined by its bits. -/
theorem bits_injective (hu : u < 2 ^ width) (hv : v < 2 ^ width) (h : bits width u = bits width v) :
    u = v := by
  refine Nat.eq_of_testBit_eq fun i => ?_
  by_cases hi : i < width
  · exact List.map_inj_left.mp h i (List.mem_reverse.mpr (List.mem_range.mpr hi))
  · have hPow : 2 ^ width ≤ 2 ^ i := Nat.pow_le_pow_right (by decide) (by omega)
    rw [Nat.testBit_lt_two_pow (Nat.lt_of_lt_of_le hu hPow),
      Nat.testBit_lt_two_pow (Nat.lt_of_lt_of_le hv hPow)]

theorem length_flatMap_bits (width : Nat) (vs : List Nat) :
    (vs.flatMap (bits width)).length = width * vs.length := by
  induction vs with
  | nil => rfl
  | cons v vs ih =>
      rw [List.flatMap_cons, List.length_append, length_bits, ih, List.length_cons]
      exact Nat.add_comm _ _

/-- An octet has eight bits. -/
theorem length_octetBits (bytes : List UInt8) : (octetBits bytes).length = 8 * bytes.length := by
  have hOctets := length_flatMap_bits 8 (bytes.map UInt8.toNat)
  rwa [List.flatMap_map, List.length_map] at hOctets

/-- Numbers of one width have the same bits only if they are the same. -/
theorem flatMap_bits_injective (hLength : vs.length = ws.length) (hvs : ∀ v ∈ vs, v < 2 ^ width)
    (hws : ∀ w ∈ ws, w < 2 ^ width) (h : vs.flatMap (bits width) = ws.flatMap (bits width)) :
    vs = ws := by
  induction vs generalizing ws with
  | nil => exact (List.length_eq_zero_iff.mp hLength.symm).symm
  | cons v vs ih =>
      cases ws with
      | nil => cases hLength
      | cons w ws =>
          obtain ⟨hv, hvs⟩ := List.forall_mem_cons.mp hvs
          obtain ⟨hw, hws⟩ := List.forall_mem_cons.mp hws
          rw [List.flatMap_cons, List.flatMap_cons] at h
          obtain ⟨hFirst, hRest⟩ := List.append_inj h (by rw [length_bits, length_bits])
          rw [bits_injective hv hw hFirst, ih (Nat.succ.inj hLength) hvs hws hRest]

variable (x y z : UInt8)

/-- Two sextets have the bits of one octet and four unused ones. -/
theorem bits_one_octet :
    bits 6 (x.toNat / 4) ++ bits 6 (x.toNat % 4 * 16) = bits 8 x.toNat ++ bits 4 0 := by
  have hx := x.toNat_lt
  have hLast : x.toNat % 4 * 16 < 2 ^ 6 := by omega
  have hSame : 2 ^ 6 * (x.toNat / 4) + x.toNat % 4 * 16 = 2 ^ 4 * x.toNat + 0 := by omega
  rw [bits_append _ hLast, bits_append _ (show 0 < 2 ^ 4 by decide), hSame]

/-- Three sextets have the bits of two octets and two unused ones. -/
theorem bits_two_octets :
    bits 6 (x.toNat / 4) ++ bits 6 (x.toNat % 4 * 16 + y.toNat / 16) ++ bits 6 (y.toNat % 16 * 4) =
      bits 8 x.toNat ++ bits 8 y.toNat ++ bits 2 0 := by
  have hx := x.toNat_lt
  have hy := y.toNat_lt
  have hSecond : x.toNat % 4 * 16 + y.toNat / 16 < 2 ^ 6 := by omega
  have hLast : y.toNat % 16 * 4 < 2 ^ 6 := by omega
  have hSame : 2 ^ 6 * (2 ^ 6 * (x.toNat / 4) + (x.toNat % 4 * 16 + y.toNat / 16)) +
      y.toNat % 16 * 4 = 2 ^ 2 * (2 ^ 8 * x.toNat + y.toNat) + 0 := by omega
  rw [bits_append _ hSecond, bits_append _ hLast, bits_append _ hy,
    bits_append _ (show 0 < 2 ^ 2 by decide), hSame]

/-- Four sextets have the bits of three octets. -/
theorem bits_three_octets :
    bits 6 (x.toNat / 4) ++ bits 6 (x.toNat % 4 * 16 + y.toNat / 16) ++
        bits 6 (y.toNat % 16 * 4 + z.toNat / 64) ++ bits 6 (z.toNat % 64) =
      bits 8 x.toNat ++ bits 8 y.toNat ++ bits 8 z.toNat := by
  have hx := x.toNat_lt
  have hy := y.toNat_lt
  have hz := z.toNat_lt
  have hSecond : x.toNat % 4 * 16 + y.toNat / 16 < 2 ^ 6 := by omega
  have hThird : y.toNat % 16 * 4 + z.toNat / 64 < 2 ^ 6 := by omega
  have hFourth : z.toNat % 64 < 2 ^ 6 := by omega
  have hSame : 2 ^ 6 * (2 ^ 6 * (2 ^ 6 * (x.toNat / 4) + (x.toNat % 4 * 16 + y.toNat / 16)) +
      (y.toNat % 16 * 4 + z.toNat / 64)) + z.toNat % 64 =
      2 ^ 8 * (2 ^ 8 * x.toNat + y.toNat) + z.toNat := by omega
  rw [bits_append _ hSecond, bits_append _ hThird, bits_append _ hFourth, bits_append _ hy,
    bits_append _ hz, hSame]

/-- Sextets have the bits of their octets. The last one may go on for two or four bits, as many as
two for each `=` that would follow. -/
theorem bits_sextets (bytes : List UInt8) :
    (sextets bytes).flatMap (bits 6) =
      octetBits bytes ++ List.replicate (2 * fill .required bytes.length) false := by
  induction bytes using sextets.induct with
  | case1 => rfl
  | case2 x =>
      have hUnused : 2 * fill .required [x].length = 4 := by simp [fill]
      simp only [sextets, octetBits, List.flatMap_cons, List.flatMap_nil, List.append_nil]
      rw [hUnused, ← bits_zero, bits_one_octet]
  | case3 x y =>
      have hUnused : 2 * fill .required [x, y].length = 2 := by simp [fill]
      simp only [sextets, octetBits, List.flatMap_cons, List.flatMap_nil, List.append_nil]
      rw [hUnused, ← bits_zero, ← List.append_assoc, bits_two_octets]
  | case4 x y z rest ih =>
      calc (sextets (x :: y :: z :: rest)).flatMap (bits 6)
        _ = bits 6 (x.toNat / 4) ++ bits 6 (x.toNat % 4 * 16 + y.toNat / 16) ++
              bits 6 (y.toNat % 16 * 4 + z.toNat / 64) ++ bits 6 (z.toNat % 64) ++
              (sextets rest).flatMap (bits 6) := by
            simp only [sextets, List.flatMap_cons, List.append_assoc]
        _ = bits 8 x.toNat ++ bits 8 y.toNat ++ bits 8 z.toNat ++
              (octetBits rest ++ List.replicate (2 * fill .required rest.length) false) := by
            rw [bits_three_octets, ih]
        _ = octetBits (x :: y :: z :: rest) ++
              List.replicate (2 * fill .required (x :: y :: z :: rest).length) false := by
            simp only [octetBits, List.flatMap_cons, List.append_assoc, List.length_cons,
              fill_add_three]

/-- The symbols with `+` and `/`, by their values. -/
def standardSymbols : String := "ABCDEFGHIJKLMNOPQRSTUVWXYZabcdefghijklmnopqrstuvwxyz0123456789+/"

/-- The symbols with `-` and `_`, by their values. -/
def urlSafeSymbols : String := "ABCDEFGHIJKLMNOPQRSTUVWXYZabcdefghijklmnopqrstuvwxyz0123456789-_"

/-- Whether so many `=` follow so many symbols. If padding is required, they fill up the last group of
four, and are no group of their own. -/
def Padding.Fills : Padding → Nat → Nat → Prop
  | .required, count, filling => filling < 4 ∧ (count + filling) % 4 = 0
  | .forbidden, _, filling => filling = 0

/-- Whether a text consists of the symbols for given values and padding behind them, and the bits of
the values are those of octets and some unused ones, which are zero and fill no symbol. -/
structure IsSpelling (symbols : String) (p : Padding) (bytes : List UInt8) (text : String)
    (values : List Nat) (unused filling : Nat) : Prop where
  values_lt : ∀ n ∈ values, n < 64
  bits_eq : values.flatMap (bits 6) = octetBits bytes ++ List.replicate unused false
  unused_lt : unused < 6
  fills : p.Fills values.length filling
  chars : text.toList =
    values.map (symbols.toList.getD · '=') ++ List.replicate filling '='

/-- Whether a text is base64 of octets. -/
def Spells (symbols : String) (p : Padding) (bytes : List UInt8) (text : String) : Prop :=
  ∃ values unused filling, IsSpelling symbols p bytes text values unused filling

/-- The padding that is written is one that fills the last group as it has to. -/
theorem fills_fill (p : Padding) (bytes : List UInt8) :
    p.Fills (sextets bytes).length (fill p bytes.length) := by
  cases p with
  | required =>
      have hFew := fill_lt .required bytes.length
      refine ⟨by omega, ?_⟩
      rw [length_sextets_add_fill, Nat.mul_mod_right]
  | forbidden => rfl

/-- There is only one way to fill the last group. -/
theorem Padding.Fills.unique (h : p.Fills n u) (h' : p.Fills n v) : u = v := by
  cases p with
  | required =>
      obtain ⟨hFew, hWhole⟩ := h
      obtain ⟨hFew', hWhole'⟩ := h'
      omega
  | forbidden => exact h.trans h'.symm

/-- The values of the symbols are the sextets, for lack of others with the same bits. -/
theorem IsSpelling.values_eq {unused filling : Nat}
    (h : IsSpelling symbols p bytes text vs unused filling) : vs = sextets bytes := by
  have hLength := congrArg List.length h.bits_eq
  have hSextets := congrArg List.length (bits_sextets bytes)
  have hUnused := h.unused_lt
  have hFew := fill_lt .required bytes.length
  simp only [List.length_append, length_flatMap_bits, length_octetBits, List.length_replicate]
    at hLength hSextets
  have hSame : unused = 2 * fill .required bytes.length := by omega
  have hBits : vs.flatMap (bits 6) = (sextets bytes).flatMap (bits 6) := by
    rw [h.bits_eq, bits_sextets, hSame]
  exact flatMap_bits_injective (by omega) h.values_lt (sextets_lt bytes) hBits

/-- A text spells octets exactly if it is what is written for them. -/
theorem spells_iff (hSymbols : ∀ n < 64, symbols.toList.getD n '=' = a.symbol n) :
    Spells symbols p bytes text ↔ text = encode a p bytes := by
  have hChars : (sextets bytes).map (symbols.toList.getD · '=') = (sextets bytes).map a.symbol :=
    List.map_congr_left fun n hn => hSymbols n (sextets_lt bytes n hn)
  rw [← String.toList_inj, encode, String.toList_ofList, encodeSymbols_eq, ← hChars]
  constructor
  · rintro ⟨values, unused, filling, h⟩
    obtain rfl := h.values_eq
    rw [h.chars, h.fills.unique (fills_fill p bytes)]
  · intro hText
    refine ⟨sextets bytes, 2 * fill .required bytes.length, fill p bytes.length, ?_⟩
    have hFew := fill_lt .required bytes.length
    exact ⟨sextets_lt bytes, bits_sextets bytes, by omega, fills_fill p bytes, hText⟩

theorem spells_urlSafe : Spells urlSafeSymbols .forbidden bytes text ↔ text = encodeUrl bytes :=
  spells_iff (by decide +kernel)

theorem spells_standard :
    Spells standardSymbols .required bytes text ↔ text = encodeStandard bytes :=
  spells_iff (by decide +kernel)

end RemoteSigning.Base64
