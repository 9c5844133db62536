import RemoteSigning.Base64
import RemoteSigning.Proofs.Results
import Mathlib.Data.List.DropRight
import Mathlib.Data.List.TakeWhile

/-!
# Base64 is canonical

Octets are written in groups of three, as four sextets each, and the last group by as many symbols
as it takes, filled up or not. What is written is what is read: each octet string has one text, and
no other text is read as it.
-/

namespace RemoteSigning

/-- A text can be told from its octets. -/
theorem Text.octets_injective {s t : String} (h : octets s = octets t) : s = t := by
  rw [← String.toByteArray_inj, ← String.utf8Encode_toList, ← String.utf8Encode_toList]
  exact congrArg List.toByteArray h

namespace Base64

/-- The numbers below 64 whose symbols are written for some octets, without padding. -/
def sextets : List UInt8 → List Nat
  | [] => []
  | [x] => [x.toNat / 4, x.toNat % 4 * 16]
  | [x, y] => [x.toNat / 4, x.toNat % 4 * 16 + y.toNat / 16, y.toNat % 16 * 4]
  | x :: y :: z :: rest =>
    x.toNat / 4 :: (x.toNat % 4 * 16 + y.toNat / 16) :: (y.toNat % 16 * 4 + z.toNat / 64)
      :: (z.toNat % 64) :: sextets rest

/-- The octet of the symbol for a number. -/
def Alphabet.octet (a : Alphabet) (n : Nat) : UInt8 := (a.symbol n).val.toUInt8

/-- What reading relies on: each sextet has a symbol of one octet, no two have the same, and no
symbol is padding. -/
structure Alphabet.Lawful (a : Alphabet) : Prop where
  symbol : ∀ n < 64, Text.charOctets (a.symbol n) = [a.octet n]
  value : ∀ b n, a.value? b = some n ↔ n < 64 ∧ a.octet n = b
  pad : a.value? pad = none

variable {a : Alphabet} {p : Padding} {bytes : List UInt8}

/-- Whether an alphabet is lawful shows in its tables. -/
theorem Alphabet.Lawful.of_tables
    (hSymbol : ∀ n < 64, Text.charOctets (a.symbol n) = [a.octet n])
    (hOctet : ∀ n < 64, a.value? (a.octet n) = some n)
    (hValue : ∀ k < 256, (a.value? (.ofNat k)).all fun n => n < 64 ∧ a.octet n = .ofNat k)
    (hPad : a.value? Base64.pad = none) : a.Lawful := by
  refine ⟨hSymbol, fun b n => ⟨fun hb => ?_, ?_⟩, hPad⟩
  · have hTable := hValue b.toNat b.toNat_lt
    rw [UInt8.ofNat_toNat, hb] at hTable
    simpa using hTable
  · rintro ⟨hn, rfl⟩
    exact hOctet n hn

theorem lawful_urlSafe : Alphabet.urlSafe.Lawful :=
  .of_tables (by decide +kernel) (by decide +kernel) (by decide +kernel) (by decide +kernel)

theorem lawful_standard : Alphabet.standard.Lawful :=
  .of_tables (by decide +kernel) (by decide +kernel) (by decide +kernel) (by decide +kernel)

/-- No symbol of an alphabet is the padding. -/
theorem Alphabet.Lawful.octet_ne_pad (ha : a.Lawful) {n : Nat} (hn : n < 64) :
    a.octet n ≠ Base64.pad := by
  intro hPad
  have hValue := (ha.value _ n).mpr ⟨hn, hPad⟩
  rw [ha.pad] at hValue
  cases hValue

theorem Alphabet.Lawful.symbol_ne (ha : a.Lawful) {n : Nat} (hn : n < 64) : a.symbol n ≠ '=' := by
  intro hPad
  refine ha.octet_ne_pad hn ?_
  rw [Alphabet.octet, hPad]
  rfl

/-- How much padding follows the symbols of that many octets: two if one octet is left over from groups
of three, one if two are. -/
def fill : Padding → Nat → Nat
  | .required, n => 2 * n % 3
  | .forbidden, _ => 0

/-- The octets of the text that is written for octets. -/
def written (a : Alphabet) (p : Padding) (bytes : List UInt8) : List UInt8 :=
  (sextets bytes).map a.octet ++ List.replicate (fill p bytes.length) pad

theorem sextets_lt (bytes : List UInt8) : ∀ n ∈ sextets bytes, n < 64 := by
  induction bytes using sextets.induct with
  | case1 => simp [sextets]
  | case2 x =>
      have hx := x.toNat_lt
      simp only [sextets, List.forall_mem_cons]
      exact ⟨by omega, by omega, by simp⟩
  | case3 x y =>
      have hx := x.toNat_lt
      have hy := y.toNat_lt
      simp only [sextets, List.forall_mem_cons]
      exact ⟨by omega, by omega, by omega, by simp⟩
  | case4 x y z rest ih =>
      have hx := x.toNat_lt
      have hy := y.toNat_lt
      have hz := z.toNat_lt
      simp only [sextets, List.forall_mem_cons]
      exact ⟨by omega, by omega, by omega, by omega, ih⟩

/-- Three octets take four symbols, and what is left takes one more than it has octets. -/
theorem length_sextets (bytes : List UInt8) :
    (sextets bytes).length = (4 * bytes.length + 2) / 3 := by
  induction bytes using sextets.induct with
  | case1 => rfl
  | case2 x => simp [sextets]
  | case3 x y => simp [sextets]
  | case4 x y z rest ih =>
      simp only [sextets, List.length_cons, ih]
      omega

theorem fill_add_three (p : Padding) (n : Nat) : fill p (n + 3) = fill p n := by
  cases p with
  | required =>
      simp only [fill]
      omega
  | forbidden => rfl

/-- Padding is no group of its own. -/
theorem fill_lt (p : Padding) (n : Nat) : fill p n < 3 := by
  cases p with
  | required => exact Nat.mod_lt _ (by decide)
  | forbidden => exact Nat.zero_lt_succ 2

/-- Padding fills the last group up. -/
theorem length_sextets_add_fill (bytes : List UInt8) :
    (sextets bytes).length + fill .required bytes.length = 4 * ((bytes.length + 2) / 3) := by
  rw [length_sextets, fill]
  have hCases : bytes.length % 3 = 0 ∨ bytes.length % 3 = 1 ∨ bytes.length % 3 = 2 := by omega
  rcases hCases with h | h | h <;> omega

/-- The length tells whether padding is written. -/
theorem length_written (a : Alphabet) (p : Padding) (bytes : List UInt8) :
    (written a p bytes).length =
      match p with
      | .required => 4 * ((bytes.length + 2) / 3)
      | .forbidden => (4 * bytes.length + 2) / 3 := by
  rw [written, List.length_append, List.length_map, List.length_replicate]
  cases p with
  | required => exact length_sextets_add_fill bytes
  | forbidden => exact length_sextets bytes

theorem written_ne_nil (a : Alphabet) (p : Padding) (h : bytes ≠ []) : written a p bytes ≠ [] := by
  have hSome := List.length_pos_iff.mpr h
  rw [← List.length_pos_iff, length_written]
  cases p <;> grind

theorem length_written_le (a : Alphabet) (p : Padding) (hFew : bytes.length ≤ 3) :
    (written a p bytes).length ≤ 4 := by
  rw [length_written]
  cases p <;> grind

/-- No single octet is ever left over. -/
theorem length_written_mod (a : Alphabet) (p : Padding) (bytes : List UInt8) :
    (written a p bytes).length % 4 ≠ 1 := by
  rw [length_written]
  cases p <;> grind

theorem encodeSymbols_eq (a : Alphabet) (p : Padding) (bytes : List UInt8) :
    encodeSymbols a p bytes =
      (sextets bytes).map a.symbol ++ List.replicate (fill p bytes.length) '=' := by
  induction bytes using sextets.induct with
  | case1 => cases p <;> rfl
  | case2 x => cases p <;> simp [encodeSymbols, sextets, fill]
  | case3 x y => cases p <;> simp [encodeSymbols, sextets, fill]
  | case4 x y z rest ih =>
      simp only [encodeSymbols, ih, sextets, List.map_cons, List.cons_append, List.length_cons,
        fill_add_three]

/-- What is encoded are the symbols of the octets, followed by what fills up the last group. -/
theorem octets_encode (ha : a.Lawful) (p : Padding) (bytes : List UInt8) :
    Text.octets (encode a p bytes) = written a p bytes := by
  have hSymbols (s : List Nat) (h : ∀ n ∈ s, n < 64) :
      (s.map a.symbol).flatMap Text.charOctets = s.map a.octet := by
    induction s with
    | nil => rfl
    | cons n s ih =>
        obtain ⟨hFirst, hRest⟩ := List.forall_mem_cons.mp h
        rw [List.map_cons, List.flatMap_cons, ha.symbol n hFirst, ih hRest]
        rfl
  have hPad : Text.charOctets '=' = [pad] := by decide
  rw [Text.octets, encode, String.toList_ofList, encodeSymbols_eq, List.flatMap_append,
    hSymbols _ (sextets_lt bytes), List.flatMap_replicate, hPad, List.flatten_replicate_singleton]
  rfl

/-- Octets have values exactly if all of them are symbols of the alphabet. -/
theorem values_eq_ok (ha : a.Lawful) {vs : List Nat} (offset : Nat) (octets : List UInt8) :
    values a offset octets = .ok vs ↔ (∀ n ∈ vs, n < 64) ∧ octets = vs.map a.octet := by
  induction octets generalizing vs offset with
  | nil => cases vs <;> simp [values]
  | cons b rest ih =>
      constructor
      · intro h
        cases hb : a.value? b with
        | none => simp [values, hb] at h
        | some n =>
            simp only [values, hb, Except.bind_eq_ok, Except.pure_eq_ok, Except.ok.injEq] at h
            obtain ⟨ns, hRest, rfl⟩ := h
            obtain ⟨hSmall, rfl⟩ := (ih (offset + 1)).mp hRest
            obtain ⟨hn, rfl⟩ := (ha.value b n).mp hb
            exact ⟨List.forall_mem_cons.mpr ⟨hn, hSmall⟩, rfl⟩
      · rintro ⟨hSmall, hOctets⟩
        cases vs with
        | nil => cases hOctets
        | cons n vs =>
            obtain ⟨hn, hRest⟩ := List.forall_mem_cons.mp hSmall
            obtain ⟨rfl, rfl⟩ := List.cons.inj hOctets
            simp only [values, (ha.value _ n).mpr ⟨hn, rfl⟩, (ih (offset + 1)).mpr ⟨hRest, rfl⟩,
              Except.ok_bind, Except.pure_eq_ok]

/-- The sextets of one to three octets stand for them. -/
theorem lastOctets_sextets (bytes : List UInt8) (hSome : bytes ≠ []) (hFew : bytes.length ≤ 3) :
    lastOctets (sextets bytes) = some bytes := by
  rcases bytes with _ | ⟨x, _ | ⟨y, _ | ⟨z, _ | ⟨u, rest⟩⟩⟩⟩
  · exact absurd rfl hSome
  · have hx := x.toNat_lt
    have hRest : x.toNat % 4 * 16 % 16 = 0 := by omega
    have hOctet : x.toNat / 4 * 4 + x.toNat % 4 * 16 / 16 = x.toNat := by omega
    simp only [sextets, lastOctets, hRest, hOctet, if_true, UInt8.ofNat_toNat]
  · have hx := x.toNat_lt
    have hy := y.toNat_lt
    have hRest : y.toNat % 16 * 4 % 4 = 0 := by omega
    have hFirst : x.toNat / 4 * 4 + (x.toNat % 4 * 16 + y.toNat / 16) / 16 = x.toNat := by omega
    have hSecond : (x.toNat % 4 * 16 + y.toNat / 16) % 16 * 16 + y.toNat % 16 * 4 / 4 = y.toNat := by
      omega
    simp only [sextets, lastOctets, hRest, hFirst, hSecond, if_true, UInt8.ofNat_toNat]
  · have hx := x.toNat_lt
    have hy := y.toNat_lt
    have hz := z.toNat_lt
    have hFirst : x.toNat / 4 * 4 + (x.toNat % 4 * 16 + y.toNat / 16) / 16 = x.toNat := by omega
    have hSecond : (x.toNat % 4 * 16 + y.toNat / 16) % 16 * 16 +
        (y.toNat % 16 * 4 + z.toNat / 64) / 4 = y.toNat := by omega
    have hThird : (y.toNat % 16 * 4 + z.toNat / 64) % 4 * 64 + z.toNat % 64 = z.toNat := by omega
    simp only [sextets, lastOctets, hFirst, hSecond, hThird, UInt8.ofNat_toNat]
  · simp only [List.length_cons] at hFew
    omega

/-- Octets read from sextets have these sextets, since no bits may be left over. -/
theorem sextets_of_lastOctets {vs : List Nat} (hSmall : ∀ n ∈ vs, n < 64) (hTwo : 2 ≤ vs.length)
    (hFour : vs.length ≤ 4) (h : lastOctets vs = some bytes) : sextets bytes = vs := by
  have hOctet {k : Nat} (hk : k < 256) : (UInt8.ofNat k).toNat = k := UInt8.toNat_ofNat_of_lt hk
  rcases vs with _ | ⟨v, _ | ⟨w, _ | ⟨x, _ | ⟨y, _ | ⟨z, vs⟩⟩⟩⟩⟩
  · simp at hTwo
  · simp at hTwo
  · simp only [List.forall_mem_cons] at hSmall
    obtain ⟨hv, hw, -⟩ := hSmall
    simp only [lastOctets, Option.ite_none_right_eq_some, Option.some.injEq] at h
    obtain ⟨hRest, rfl⟩ := h
    simp only [sextets, hOctet (show v * 4 + w / 16 < 256 by omega), List.cons.injEq, and_true]
    omega
  · simp only [List.forall_mem_cons] at hSmall
    obtain ⟨hv, hw, hx, -⟩ := hSmall
    simp only [lastOctets, Option.ite_none_right_eq_some, Option.some.injEq] at h
    obtain ⟨hRest, rfl⟩ := h
    simp only [sextets, hOctet (show v * 4 + w / 16 < 256 by omega),
      hOctet (show w % 16 * 16 + x / 4 < 256 by omega), List.cons.injEq, and_true]
    omega
  · simp only [List.forall_mem_cons] at hSmall
    obtain ⟨hv, hw, hx, hy, -⟩ := hSmall
    obtain rfl := Option.some.inj h
    simp only [sextets, hOctet (show v * 4 + w / 16 < 256 by omega),
      hOctet (show w % 16 * 16 + x / 4 < 256 by omega),
      hOctet (show x % 4 * 64 + y < 256 by omega), List.cons.injEq, and_true]
    omega
  · simp only [List.length_cons] at hFour
    omega

/-- The last group is read as the octets for which it was written. -/
theorem decodeLast_written (ha : a.Lawful) (p : Padding) (offset : Nat) (hFew : bytes.length ≤ 3) :
    decodeLast a p offset (written a p bytes) = .ok bytes := by
  have hSymbols : ∀ b ∈ (sextets bytes).map a.octet, (b != pad) = true := by
    intro b hb
    obtain ⟨n, hn, rfl⟩ := List.mem_map.mp hb
    exact bne_iff_ne.mpr (ha.octet_ne_pad (sextets_lt bytes n hn))
  have hTake : (written a p bytes).takeWhile (· != pad) = (sextets bytes).map a.octet := by
    rw [written, List.takeWhile_append_of_pos hSymbols]
    simp
  have hDrop : (written a p bytes).dropWhile (· != pad) =
      List.replicate (fill p bytes.length) pad := by
    rw [written, List.dropWhile_append_of_pos hSymbols]
    simp
  have hValues := (values_eq_ok ha offset ((sextets bytes).map a.octet)).mpr ⟨sextets_lt bytes, rfl⟩
  simp only [decodeLast, hTake, hDrop, hValues, Except.ok_bind]
  by_cases hNone : bytes = []
  · subst hNone
    cases p <;> rfl
  · have hLast := lastOctets_sextets bytes hNone hFew
    have hWhole : (written a p bytes).isEmpty = false :=
      List.isEmpty_eq_false_iff.mpr (written_ne_nil a p hNone)
    have hEnough : ¬ ((sextets bytes).map a.octet).length < 2 := by
      have hSome : 0 < bytes.length := List.length_pos_iff.mpr hNone
      rw [List.length_map, length_sextets]
      omega
    simp only [hWhole, hEnough, hLast]
    cases p with
    | required =>
        have hFull : (written a .required bytes).length % 4 = 0 := by
          rw [length_written, Nat.mul_mod_right]
        simp [hFull]
    | forbidden => simp [fill]

/-- Only what is written for some octets is read as a last group. -/
theorem written_of_decodeLast (ha : a.Lawful) {offset : Nat} {group : List UInt8}
    (hShort : group.length ≤ 4) (h : decodeLast a p offset group = .ok bytes) :
    group = written a p bytes := by
  have hGroup : group.takeWhile (· != pad) ++ group.dropWhile (· != pad) = group :=
    List.takeWhile_append_dropWhile
  simp only [decodeLast] at h
  generalize group.takeWhile (· != pad) = symbols at h hGroup
  generalize group.dropWhile (· != pad) = padding at h hGroup
  subst hGroup
  simp only [Except.throw_eq_error, Except.error_bind, Except.bind_eq_ok, Except.ite_error_eq_ok] at h
  obtain ⟨vs, hValues, hPadding, h⟩ := h
  obtain ⟨hSmall, rfl⟩ := (values_eq_ok ha ..).mp hValues
  split at h
  · rename_i hNothing
    obtain rfl : [] = bytes := Except.ok.inj h
    cases p <;> simpa [written, sextets, fill] using hNothing
  · simp only [Except.ite_error_eq_ok, List.length_map, List.length_append] at h hShort
    obtain ⟨hEnough, h⟩ := h
    cases hLast : lastOctets vs with
    | none => cases p <;> simp [hLast] at h
    | some read =>
        have hSextets := sextets_of_lastOctets hSmall (by omega) (by omega) hLast
        cases p with
        | required =>
            simp only [hLast, Except.ite_error_eq_ok, Except.pure_eq_ok, Except.ok.injEq] at h
            obtain ⟨hWhole, rfl⟩ := h
            -- The group has four octets, as many as are written.
            have hFill := length_sextets_add_fill read
            have hFew := fill_lt .required read.length
            rw [hSextets] at hFill
            rw [written, hSextets, List.append_cancel_left_eq, List.eq_replicate_iff]
            refine ⟨by omega, fun b hb => ?_⟩
            by_contra hOther
            have hAny : padding.any (· != pad) := List.any_eq_true.mpr ⟨b, hb, bne_iff_ne.mpr hOther⟩
            have hSome : padding.isEmpty = false :=
              List.isEmpty_eq_false_iff.mpr (List.ne_nil_of_mem hb)
            simp [hAny, hSome] at hPadding
        | forbidden =>
            simp only [hLast, Except.ite_error_eq_ok, Except.pure_eq_ok, Except.ok.injEq] at h
            obtain ⟨hNone, rfl⟩ := h
            rw [written, hSextets, List.append_cancel_left_eq]
            simpa [fill] using hNone

/-- Three octets at the front are written on their own. -/
theorem written_cons (a : Alphabet) (p : Padding) (x y z : UInt8) (rest : List UInt8) :
    written a p (x :: y :: z :: rest) = (sextets [x, y, z]).map a.octet ++ written a p rest := by
  simp only [written, sextets, List.map_cons, List.map_nil, List.cons_append, List.nil_append,
    List.length_cons, fill_add_three]

theorem decodeGroups_of_length_le {octets : List UInt8} (hShort : octets.length ≤ 4) (offset : Nat) :
    decodeGroups a p offset octets = decodeLast a p offset octets := by
  rcases octets with _ | ⟨b₀, _ | ⟨b₁, _ | ⟨b₂, _ | ⟨b₃, _ | ⟨b₄, rest⟩⟩⟩⟩⟩
  all_goals first | rfl | skip
  simp only [List.length_cons] at hShort
  omega

/-- A group that is not the last one is whole. -/
theorem decodeGroups_cons (ha : a.Lawful) (x y z : UInt8) {later : List UInt8} (hLater : later ≠ [])
    (offset : Nat) :
    decodeGroups a p offset ((sextets [x, y, z]).map a.octet ++ later) =
      (decodeGroups a p (offset + 4) later).map ([x, y, z] ++ ·) := by
  obtain ⟨b, later, rfl⟩ := List.exists_cons_of_ne_nil hLater
  have hValues := (values_eq_ok ha offset ((sextets [x, y, z]).map a.octet)).mpr
    ⟨sextets_lt [x, y, z], rfl⟩
  have hLast := lastOctets_sextets [x, y, z] (by simp) (by simp)
  simp only [sextets, List.map_cons, List.map_nil] at hValues hLast
  simp only [sextets, List.map_cons, List.map_nil, List.cons_append, List.nil_append, decodeGroups,
    hValues, hLast, Except.ok_bind, Option.getD_some]
  cases decodeGroups a p (offset + 4) (b :: later) <;> rfl

/-- What is written for some octets is read as these octets, group by group. -/
theorem decodeGroups_written (ha : a.Lawful) (p : Padding) (offset : Nat) (bytes : List UInt8) :
    decodeGroups a p offset (written a p bytes) = .ok bytes := by
  have hShort {bytes : List UInt8} (hFew : bytes.length ≤ 3) (offset : Nat) :
      decodeGroups a p offset (written a p bytes) = .ok bytes := by
    rw [decodeGroups_of_length_le (length_written_le a p hFew), decodeLast_written ha p offset hFew]
  induction bytes using sextets.induct generalizing offset with
  | case1 => exact hShort (by simp) offset
  | case2 x => exact hShort (by simp) offset
  | case3 x y => exact hShort (by simp) offset
  | case4 x y z rest ih =>
      by_cases hRest : rest = []
      · subst hRest
        exact hShort (by simp) offset
      · rw [written_cons, decodeGroups_cons ha x y z (written_ne_nil a p hRest), ih]
        rfl

/-- Nothing else is read as these octets. -/
theorem written_of_decodeGroups (ha : a.Lawful) {offset : Nat} {octets : List UInt8}
    (h : decodeGroups a p offset octets = .ok bytes) : octets = written a p bytes := by
  induction offset, octets using decodeGroups.induct generalizing bytes with
  | case1 offset b₀ b₁ b₂ b₃ b₄ rest ih =>
      simp only [decodeGroups, Except.bind_eq_ok, Except.pure_eq_ok, Except.ok.injEq] at h
      obtain ⟨vs, hValues, later, hLater, rfl⟩ := h
      obtain ⟨hSmall, hOctets⟩ := (values_eq_ok ha ..).mp hValues
      obtain ⟨v, w, x, y, rfl⟩ : ∃ v w x y, vs = [v, w, x, y] := by
        rcases vs with _ | ⟨v, _ | ⟨w, _ | ⟨x, _ | ⟨y, _ | ⟨z, vs⟩⟩⟩⟩⟩ <;> simp at hOctets
        exact ⟨v, w, x, y, rfl⟩
      have hSextets := sextets_of_lastOctets hSmall (by simp) (by simp) rfl
      change _ = written a p (_ :: _ :: _ :: later)
      rw [written_cons, hSextets, ← hOctets, ← ih hLater]
      rfl
  | case2 offset octets hOther =>
      have hShort : octets.length ≤ 4 := by
        rcases octets with _ | ⟨b₀, _ | ⟨b₁, _ | ⟨b₂, _ | ⟨b₃, _ | ⟨b₄, rest⟩⟩⟩⟩⟩
        all_goals first | exact (hOther _ _ _ _ _ _ rfl).elim | simp
      rw [decodeGroups_of_length_le hShort] at h
      exact written_of_decodeLast ha hShort h

/-- A text is read as octets exactly if it is what is written for them. -/
theorem decode_eq_ok (ha : a.Lawful) {text : String} :
    decode a p text = .ok bytes ↔ text = encode a p bytes := by
  constructor
  · intro h
    simp only [decode, decodeOctets, Except.ite_error_eq_ok] at h
    exact Text.octets_injective ((written_of_decodeGroups ha h.2).trans (octets_encode ha p bytes).symm)
  · rintro rfl
    rw [decode, octets_encode ha, decodeOctets, if_neg fun h => length_written_mod a p bytes h.1]
    exact decodeGroups_written ha p 0 bytes

/-- Without padding to trim, a text is accepted exactly if it is the encoding of what it is read as.
-/
theorem decodeUrl_eq_ok {text : String} : decodeUrl text = .ok bytes ↔ text = encodeUrl bytes :=
  decode_eq_ok lawful_urlSafe

theorem decodeStandard_eq_ok {text : String} :
    decodeStandard text = .ok bytes ↔ text = encodeStandard bytes :=
  decode_eq_ok lawful_standard

/-- No two sequences of octets have one encoding. -/
theorem encodeUrl_injective {bytes' : List UInt8} (h : encodeUrl bytes = encodeUrl bytes') :
    bytes = bytes' :=
  Except.ok.inj ((decodeUrl_eq_ok.mpr rfl).symm.trans (decodeUrl_eq_ok.mpr h))

/-- Only symbols are written where nothing is filled up. -/
theorem exists_symbol_of_mem_encodeUrl {c : Char} (h : c ∈ (encodeUrl bytes).toList) :
    ∃ n < 64, Alphabet.urlSafe.symbol n = c := by
  rw [encodeUrl, encode, String.toList_ofList, encodeSymbols_eq, fill, List.replicate_zero,
    List.append_nil] at h
  obtain ⟨n, hn, hSymbol⟩ := List.mem_map.mp h
  exact ⟨n, sextets_lt bytes n hn, hSymbol⟩

/-- The text before the padding in which it ends. -/
def unpadded (text : String) : String := String.ofList (text.toList.rdropWhile (· = '='))

theorem trimPadding_eq (text : String) : trimPadding text = unpadded text := rfl

/-- What is written without padding stays as it is. -/
theorem unpadded_encodeUrl (bytes : List UInt8) : unpadded (encodeUrl bytes) = encodeUrl bytes := by
  have hSymbols : ∀ c ∈ (encodeUrl bytes).toList, c ≠ '=' := by
    intro c hc
    obtain ⟨n, hn, rfl⟩ := exists_symbol_of_mem_encodeUrl hc
    exact lawful_urlSafe.symbol_ne hn
  have hKept : (encodeUrl bytes).toList.rdropWhile (· = '=') = (encodeUrl bytes).toList :=
    List.rdropWhile_eq_self_iff.mpr fun hSome => by
      simpa using hSymbols _ (List.getLast_mem hSome)
  rw [unpadded, hKept, String.ofList_toList]

/-- A text with so many `=` behind it. -/
def padded (text : String) (n : Nat) : String := String.ofList (text.toList ++ List.replicate n '=')

theorem unpadded_padded (text : String) (n : Nat) : unpadded (padded text n) = unpadded text := by
  have hDropped : (text.toList ++ List.replicate n '=').rdropWhile (· = '=') =
      text.toList.rdropWhile (· = '=') := by
    induction n with
    | zero => rw [List.replicate_zero, List.append_nil]
    | succ n ih =>
        rw [List.replicate_succ', ← List.append_assoc, List.rdropWhile_concat_pos _ _ _ (by decide), ih]
  rw [unpadded, padded, String.toList_ofList, hDropped, unpadded]

/-- Every text is its unpadded form with some padding. -/
theorem exists_padded_eq (text : String) : ∃ n, padded (unpadded text) n = text := by
  have hEnd : text.toList.rtakeWhile (· = '=') =
      List.replicate (text.toList.rtakeWhile (· = '=')).length '=' :=
    List.eq_replicate_iff.mpr ⟨rfl, fun c hc => by simpa using List.mem_rtakeWhile_imp hc⟩
  refine ⟨(text.toList.rtakeWhile (· = '=')).length, ?_⟩
  rw [padded, unpadded, String.toList_ofList, ← hEnd, List.rdropWhile_append_rtakeWhile,
    String.ofList_toList]

/-- Whether two texts differ at most in how many `=` they end in. -/
def DifferInPadding (s t : String) : Prop := ∃ stem m n, s = padded stem m ∧ t = padded stem n

/-- Texts that differ in padding are those with one unpadded form. -/
theorem differInPadding_iff {s t : String} : DifferInPadding s t ↔ unpadded s = unpadded t := by
  constructor
  · rintro ⟨stem, m, n, rfl, rfl⟩
    rw [unpadded_padded, unpadded_padded]
  · intro h
    obtain ⟨m, hs⟩ := exists_padded_eq s
    obtain ⟨n, ht⟩ := exists_padded_eq t
    exact ⟨unpadded t, m, n, by rw [← h, hs], ht.symm⟩

/-- Octets are read from a text, whatever padding it ends in, exactly if the rest of it is what is
written for them. -/
theorem decodeUrlLenient_eq_ok {text : String} :
    decodeUrlLenient text = .ok bytes ↔ unpadded text = encodeUrl bytes := by
  rw [decodeUrlLenient, decodeUrl_eq_ok, trimPadding_eq]

/-- Whether a text, but for the padding in which it ends, is what is written for some octets. -/
def IsUrlText (text : String) : Prop := ∃ bytes, unpadded text = encodeUrl bytes

/-- The texts of the alphabet for links are the encodings with any amount of padding. -/
theorem isUrlText_iff {text : String} :
    IsUrlText text ↔ ∃ bytes n, text = padded (encodeUrl bytes) n := by
  constructor
  · rintro ⟨bytes, hText⟩
    obtain ⟨n, hPadded⟩ := exists_padded_eq text
    exact ⟨bytes, n, by rw [← hText, hPadded]⟩
  · rintro ⟨bytes, n, rfl⟩
    exact ⟨bytes, by rw [unpadded_padded, unpadded_encodeUrl]⟩

end Base64

end RemoteSigning
