import RemoteSigning.Proofs.Lists
import RemoteSigning.Proofs.Text.Digits
import RemoteSigning.Proofs.Text.Utf8
import RemoteSigning.Url.Basic

/-!
# Escapes are read back

A part of a URL holds only characters that stand for themselves there, so writing it once more
changes nothing. A pair in form coding is read back whatever octets its name and its value have.
-/

namespace RemoteSigning.Url

open Text Items

namespace Percent

variable {reserved : Reserved} {b : UInt8} {c : Char} {cs : List Char}

/-- Whether a character stands for itself in a part of a URL: none of its octets is escaped. -/
def Reserved.Keeps (reserved : Reserved) (c : Char) : Prop :=
  ∀ b ∈ charOctets c, reserved.escapes b = false

instance : DecidablePred reserved.Keeps := fun c =>
  inferInstanceAs (Decidable (∀ b ∈ charOctets c, reserved.escapes b = false))

theorem Reserved.range_of_escapes (h : reserved.escapes b = false) :
    0x20 ≤ b.toNat ∧ b.toNat < 0x7F := by
  simp only [Reserved.escapes, Bool.or_eq_false_iff, decide_eq_false_iff_not,
    UInt8.lt_iff_toNat_lt, UInt8.le_iff_toNat_le, UInt8.reduceToNat] at h
  omega

/-- A character beyond ASCII has octets that every part escapes. -/
theorem Reserved.Keeps.range (h : reserved.Keeps c) : 0x20 ≤ c.toNat ∧ c.toNat < 0x7F := by
  have hSmall : c.toNat < 0x80 := by
    by_contra hLarge
    obtain ⟨b, hMem⟩ := List.exists_mem_of_ne_nil (charOctets c) String.utf8EncodeChar_ne_nil
    have hSize := le_of_mem_charOctets (Nat.le_of_not_lt hLarge) hMem
    have := range_of_escapes (h b hMem)
    omega
  have hRange := range_of_escapes (h (UInt8.ofNat c.toNat)
    (by rw [charOctets_of_lt hSmall]; exact List.mem_singleton_self _))
  rwa [toNat_octet hSmall] at hRange

theorem Reserved.Keeps.charOctets_eq (h : reserved.Keeps c) :
    charOctets c = [UInt8.ofNat c.toNat] :=
  charOctets_of_lt (by have := h.range; omega)

theorem Reserved.Keeps.escapes_eq (h : reserved.Keeps c) :
    reserved.escapes (UInt8.ofNat c.toNat) = false :=
  h _ (by rw [h.charOctets_eq]; exact List.mem_singleton_self _)

theorem Reserved.Keeps.toNat_octet_eq (h : reserved.Keeps c) :
    (UInt8.ofNat c.toNat).toNat = c.toNat :=
  toNat_octet (by have := h.range; omega)

theorem Reserved.Keeps.notMem (h : reserved.Keeps c) : c ∉ reserved := by
  intro hMem
  have hAny : (reserved.any fun r => r.toNat == (UInt8.ofNat c.toNat).toNat) = true := by
    rw [List.any_eq_true]
    exact ⟨c, hMem, by rw [h.toNat_octet_eq, beq_self_eq_true]⟩
  have hKept := h.escapes_eq
  rw [Reserved.escapes, hAny, Bool.or_true] at hKept
  cases hKept

theorem Reserved.Keeps.lt (h : reserved.Keeps c) (hBlank : ' ' ∈ reserved) : 0x20 < c.toNat := by
  refine Nat.lt_of_le_of_ne h.range.1 fun hSize => h.notMem ?_
  rw [← Char.ofNat_toNat c, ← hSize]
  exact hBlank

theorem encode_cons (c : Char) (cs : List Char) :
    encode reserved (c :: cs) = encodeOctets reserved (charOctets c) ++ encode reserved cs := by
  simp only [encode, encodeOctets, List.flatMap_cons, List.flatMap_append]

/-- What need not be escaped is kept. -/
theorem encode_of_keeps (h : ∀ c ∈ cs, reserved.Keeps c) : encode reserved cs = cs := by
  induction cs with
  | nil => rfl
  | cons c cs ih =>
    have hHead := h c List.mem_cons_self
    rw [encode_cons, ih fun x hx => h x (List.mem_cons_of_mem _ hx), hHead.charOctets_eq,
      encodeOctets, List.flatMap_singleton, encodeOctet, hHead.escapes_eq,
      if_neg Bool.false_ne_true, hHead.toNat_octet_eq, Char.ofNat_toNat]
    rfl

/-- The characters of which escapes are made. -/
def signs : List Char := '%' :: (List.range 16).map Hex.upperDigit

/-- An escape consists of a percent sign and digits. -/
theorem mem_signs_of_mem_escape (h : c ∈ escape b) : c ∈ signs := by
  have hSize := b.toNat_lt
  rw [escape, List.mem_cons, List.mem_cons, List.mem_singleton] at h
  rw [signs, List.mem_cons, List.mem_map]
  obtain rfl | rfl | rfl := h
  · exact .inl rfl
  · exact .inr ⟨b.toNat / 16, List.mem_range.mpr (by omega), rfl⟩
  · exact .inr ⟨b.toNat % 16, List.mem_range.mpr (by omega), rfl⟩

/-- What is written is an escape or has been there before. -/
theorem mem_encode (h : c ∈ encode reserved cs) : c ∈ signs ∨ c ∈ cs ∧ reserved.Keeps c := by
  obtain ⟨b, hOctet, hMem⟩ := List.mem_flatMap.mp h
  by_cases hEscaped : reserved.escapes b = true
  · rw [encodeOctet, if_pos hEscaped] at hMem
    exact .inl (mem_signs_of_mem_escape hMem)
  · rw [encodeOctet, if_neg hEscaped, List.mem_singleton] at hMem
    have hKept := Bool.eq_false_iff.mpr hEscaped
    have hRange := Reserved.range_of_escapes hKept
    obtain ⟨x, hx, hOctet⟩ := List.mem_flatMap.mp hOctet
    have hSmall : x.toNat < 0x80 := by
      by_contra hLarge
      have := le_of_mem_charOctets (Nat.le_of_not_lt hLarge) hOctet
      omega
    rw [charOctets_of_lt hSmall, List.mem_singleton] at hOctet
    have hSame : c = x := by
      rw [hMem, hOctet, toNat_octet hSmall, Char.ofNat_toNat]
    refine .inr ⟨hSame ▸ hx, fun y hy => ?_⟩
    rw [hSame, charOctets_of_lt hSmall, List.mem_singleton, ← hOctet] at hy
    rw [hy, hKept]

/-- What is written stands for itself, provided that escapes do. -/
theorem keeps_of_mem_encode (hSigns : ∀ c ∈ signs, reserved.Keeps c)
    (h : c ∈ encode reserved cs) : reserved.Keeps c :=
  (mem_encode h).elim (hSigns c) (·.2)

/-- These signs are kept everywhere, so nothing is escaped twice. -/
theorem keeps_signs_inPath : ∀ c ∈ signs, inPath.Keeps c := by decide

theorem keeps_signs_inUserinfo : ∀ c ∈ signs, inUserinfo.Keeps c := by decide

theorem keeps_signs_inSpecialQuery : ∀ c ∈ signs, inSpecialQuery.Keeps c := by decide

theorem keeps_signs_inFragment : ∀ c ∈ signs, inFragment.Keeps c := by decide

theorem decode_cons_of_ne (h : b ≠ 0x25) (rest : List UInt8) :
    decode (b :: rest) = b :: decode rest := by
  match rest with
  | [] => rfl
  | [_] => rfl
  | _ :: _ :: _ => rw [decode, if_neg h]

theorem decode_of_notMem {bytes : List UInt8} (h : 0x25 ∉ bytes) : decode bytes = bytes := by
  induction bytes with
  | nil => rfl
  | cons b rest ih =>
    rw [List.mem_cons, not_or] at h
    rw [decode_cons_of_ne (Ne.symm h.1), ih h.2]

theorem charOctets_upperDigit {n : Nat} (h : n < 16) :
    charOctets (Hex.upperDigit n) = [UInt8.ofNat (Hex.upperDigit n).toNat] :=
  charOctets_of_lt (Hex.toNat_upperDigit_lt n h)

theorem octets_escape (b : UInt8) :
    (escape b).flatMap charOctets =
      [0x25, UInt8.ofNat (Hex.upperDigit (b.toNat / 16)).toNat,
        UInt8.ofNat (Hex.upperDigit (b.toNat % 16)).toNat] := by
  have hSize := b.toNat_lt
  have hSign : charOctets '%' = [0x25] := by decide
  simp only [escape, List.flatMap_cons, List.flatMap_nil, hSign,
    charOctets_upperDigit (show b.toNat / 16 < 16 by omega),
    charOctets_upperDigit (show b.toNat % 16 < 16 by omega), List.singleton_append]

theorem digit?_octet {n : Nat} (h : n < 16) :
    digit? (UInt8.ofNat (Hex.upperDigit n).toNat) = some n := by
  rw [digit?, toNat_octet (Hex.toNat_upperDigit_lt n h), Char.ofNat_toNat, Hex.digit?_upperDigit n h]

/-- An escape is decoded as its octet. -/
theorem decode_escape (b : UInt8) (rest : List UInt8) :
    decode ((escape b).flatMap charOctets ++ rest) = b :: decode rest := by
  have hSize := b.toNat_lt
  have hNumber : b.toNat / 16 * 16 + b.toNat % 16 = b.toNat := by omega
  rw [octets_escape, List.cons_append, List.cons_append, List.singleton_append, decode,
    if_pos rfl, digit?_octet (by omega), digit?_octet (by omega)]
  dsimp only
  rw [hNumber, UInt8.ofNat_toNat]

/-- Decoding makes nothing longer. -/
theorem length_decode_le (bytes : List UInt8) : (decode bytes).length ≤ bytes.length := by
  fun_induction decode bytes <;> simp only [List.length_cons, List.length_nil] at * <;> omega

/-- A `%` that no digits follow stands for itself. -/
theorem decode_percent_of_ne {b : UInt8} (h : digit? b = none) (rest : List UInt8) :
    decode (0x25 :: b :: rest) = 0x25 :: decode (b :: rest) := by
  match rest with
  | [] => rfl
  | c :: rest => rw [decode, if_pos rfl, h]

theorem decode_percent_of_second_ne {b c : UInt8} (h : digit? c = none) (rest : List UInt8) :
    decode (0x25 :: b :: c :: rest) = 0x25 :: decode (b :: c :: rest) := by
  rw [decode, if_pos rfl, h]
  cases digit? b <;> rfl

/-- The octets of an octet as a path has it. -/
def inPathOctets (b : UInt8) : List UInt8 := (encodeOctet inPath b).flatMap charOctets

/-- A path writes every octet as its escape or as it is, and a `%` and digits as they are. -/
theorem inPathOctets_cases : ∀ n < 256,
    (inPathOctets (UInt8.ofNat n) = (escape (UInt8.ofNat n)).flatMap charOctets ∧ n ≠ 0x25 ∧
      digit? (UInt8.ofNat n) = none) ∨ inPathOctets (UInt8.ofNat n) = [UInt8.ofNat n] := by
  decide +kernel

theorem decode_inPathOctets {b : UInt8} (h : b ≠ 0x25) (rest : List UInt8) :
    decode (inPathOctets b ++ rest) = b :: decode rest := by
  have hCases := inPathOctets_cases b.toNat b.toNat_lt
  rw [UInt8.ofNat_toNat] at hCases
  obtain ⟨hEscape, -, -⟩ | hPlain := hCases
  · rw [hEscape, decode_escape]
  · rw [hPlain, List.singleton_append, decode_cons_of_ne h]

/-- What is no digit does not begin with one where it is written, and a digit is written as it is. -/
theorem inPathOctets_eq (b : UInt8) :
    (∃ first more, inPathOctets b = first :: more ∧ digit? first = none) ∧ digit? b = none ∨
      inPathOctets b = [b] ∧ digit? b ≠ none := by
  have hCases := inPathOctets_cases b.toNat b.toNat_lt
  rw [UInt8.ofNat_toNat] at hCases
  obtain ⟨hEscape, -, hDigit⟩ | hPlain := hCases
  · refine .inl ⟨⟨_, _, hEscape.trans (octets_escape b), by decide⟩, hDigit⟩
  · by_cases hDigit : digit? b = none
    · exact .inl ⟨⟨b, [], hPlain, hDigit⟩, hDigit⟩
    · exact .inr ⟨hPlain, hDigit⟩

/-- Escapes that a path adds are decoded to what they stand for, and none is made of what is there. -/
theorem decode_flatMap_inPathOctets (bytes : List UInt8) :
    decode (bytes.flatMap inPathOctets) = decode bytes := by
  induction hLength : bytes.length using Nat.strongRecOn generalizing bytes with
  | ind n ih =>
  subst hLength
  cases bytes with
  | nil => rfl
  | cons b rest =>
    have hRest := ih rest.length (Nat.lt_succ_self _) rest rfl
    by_cases hSign : b = 0x25
    · subst hSign
      have hPercent : inPathOctets 0x25 = [0x25] := by decide
      rw [List.flatMap_cons, hPercent, List.singleton_append]
      cases rest with
      | nil => rfl
      | cons c rest =>
        obtain ⟨⟨first, more, hFirst, hNone⟩, hDigit⟩ | ⟨hPlain, hDigit⟩ := inPathOctets_eq c
        · rw [decode_percent_of_ne hDigit, ← hRest, List.flatMap_cons, hFirst, List.cons_append,
            decode_percent_of_ne hNone]
        · cases rest with
          | nil => rw [List.flatMap_singleton, hPlain]
          | cons d rest =>
            obtain ⟨⟨first, more, hFirst, hNone⟩, hDigit'⟩ | ⟨hPlain', hDigit'⟩ := inPathOctets_eq d
            · rw [decode_percent_of_second_ne hDigit', ← hRest, List.flatMap_cons, hPlain,
                List.flatMap_cons, hFirst, List.singleton_append, List.cons_append,
                decode_percent_of_second_ne hNone]
            · obtain ⟨high, hHigh⟩ := Option.ne_none_iff_exists'.mp hDigit
              obtain ⟨low, hLow⟩ := Option.ne_none_iff_exists'.mp hDigit'
              have hLater := ih rest.length (by simp only [List.length_cons]; omega) rest rfl
              rw [List.flatMap_cons, hPlain, List.flatMap_cons, hPlain', List.singleton_append,
                List.singleton_append, decode, if_pos rfl, hHigh, hLow, decode, if_pos rfl, hHigh,
                hLow]
              exact congrArg _ hLater
    · rw [List.flatMap_cons, decode_inPathOctets hSign, decode_cons_of_ne hSign, hRest]

/-- Escaping for a path changes nothing about what is decoded. -/
theorem decode_encode_inPath (cs : List Char) :
    decode ((encode inPath cs).flatMap charOctets) = decode (cs.flatMap charOctets) := by
  have hOctets : (encode inPath cs).flatMap charOctets =
      (cs.flatMap charOctets).flatMap inPathOctets := by
    rw [encode, encodeOctets, List.flatMap_assoc]
    rfl
  rw [hOctets, decode_flatMap_inPathOctets]

end Percent

namespace Form

open Percent (inSpecialQuery)

/-- A written octet has none of the signs that divide a query, and stands for itself there. -/
theorem of_mem_encodeOctet :
    ∀ n < 256, ∀ c ∈ encodeOctet (UInt8.ofNat n),
      inSpecialQuery.Keeps c ∧ c ≠ '&' ∧ c ≠ '=' := by
  decide +kernel

theorem of_mem_encode {text : String} {c : Char} (h : c ∈ encode text) :
    inSpecialQuery.Keeps c ∧ c ≠ '&' ∧ c ≠ '=' := by
  obtain ⟨b, -, hMem⟩ := List.mem_flatMap.mp h
  exact of_mem_encodeOctet b.toNat b.toNat_lt c (by rwa [UInt8.ofNat_toNat])

theorem octet_notMem_encode {sign : Char} (hSign : sign = '&' ∨ sign = '=') (text : String) :
    UInt8.ofNat sign.toNat ∉ (encode text).flatMap charOctets := by
  refine octet_notMem (by obtain rfl | rfl := hSign <;> decide) fun c hc => ?_
  obtain ⟨hKept, hAnd, hEquals⟩ := of_mem_encode hc
  have hRange := hKept.range
  refine ⟨by omega, ?_⟩
  obtain rfl | rfl := hSign
  · exact hAnd
  · exact hEquals

/-- The octet that a reader puts in place of another one. A plus is a blank. -/
def unplus (b : UInt8) : UInt8 := if b = 0x2B then 0x20 else b

/-- An octet is written either as one that is read as the octet or as its escape. -/
theorem octets_encodeOctet :
    ∀ n < 256, ((encodeOctet (UInt8.ofNat n)).flatMap charOctets).map unplus =
        (Percent.escape (UInt8.ofNat n)).flatMap charOctets ∨
      n ≠ 0x25 ∧ ((encodeOctet (UInt8.ofNat n)).flatMap charOctets).map unplus =
        [UInt8.ofNat n] := by
  decide +kernel

theorem decode_encodeOctet (b : UInt8) (rest : List UInt8) :
    Percent.decode (((encodeOctet b).flatMap charOctets).map unplus ++ rest) =
      b :: Percent.decode rest := by
  have hForm := octets_encodeOctet b.toNat b.toNat_lt
  rw [UInt8.ofNat_toNat] at hForm
  obtain hEscape | ⟨hSign, hPlain⟩ := hForm
  · rw [hEscape, Percent.decode_escape]
  · rw [hPlain, List.singleton_append, Percent.decode_cons_of_ne]
    rintro rfl
    exact hSign rfl

/-- A form is decoded as what was encoded. -/
theorem decode_octets_encode (text : String) : decode ((encode text).flatMap charOctets) = text := by
  have hBytes (bytes : List UInt8) :
      Percent.decode (((bytes.flatMap encodeOctet).flatMap charOctets).map unplus) = bytes := by
    induction bytes with
    | nil => rfl
    | cons b bytes ih =>
      rw [List.flatMap_cons, List.flatMap_append, List.map_append, decode_encodeOctet, ih]
  exact (congrArg ofOctetsLossy (hBytes (octets text))).trans (ofOctetsLossy_octets text)

/-- So is a pair. -/
theorem decodePair_encode (name value : String) :
    decodePair ((encode name).flatMap charOctets ++ 0x3D :: (encode value).flatMap charOctets) =
      (name, value) := by
  have hName : ∀ b ∈ (encode name).flatMap charOctets, (b != 0x3D) = true :=
    ne_of_notMem (octet_notMem_encode (.inr rfl) name)
  rw [decodePair, List.takeWhile_append_of_pos hName, List.dropWhile_append_of_pos hName,
    List.takeWhile_cons_of_neg (by decide), List.dropWhile_cons_of_neg (by decide), List.append_nil,
    List.drop_one, List.tail_cons, decode_octets_encode, decode_octets_encode]

/-- The query that a pair is written as consists of the pair. -/
theorem decodePairs_encodePair (name value : String) :
    decodePairs (encodePair name value) = [(name, value)] := by
  have hOctets : octets (encodePair name value) =
      (encode name).flatMap charOctets ++ 0x3D :: (encode value).flatMap charOctets := by
    rw [octets, encodePair, String.toList_ofList, List.flatMap_append, List.flatMap_cons]
    rfl
  have hWhole : 0x26 ∉ (encode name).flatMap charOctets ++
      0x3D :: (encode value).flatMap charOctets := by
    rw [List.mem_append, List.mem_cons]
    rintro (hMem | hMem | hMem)
    · exact octet_notMem_encode (.inl rfl) name hMem
    · exact absurd hMem (by decide)
    · exact octet_notMem_encode (.inl rfl) value hMem
  rw [decodePairs, hOctets, List.splitOn_eq_singleton hWhole, List.filter_cons_of_pos,
    List.filter_nil, List.map_singleton, decodePair_encode]
  rw [Bool.not_eq_true', List.isEmpty_eq_false_iff]
  exact List.append_ne_nil_of_right_ne_nil _ (List.cons_ne_nil _ _)

/-- A pair need not be escaped in a query. -/
theorem keeps_of_mem_encodePair {name value : String} {c : Char}
    (h : c ∈ (encodePair name value).toList) : inSpecialQuery.Keeps c := by
  rw [encodePair, String.toList_ofList, List.mem_append, List.mem_cons] at h
  obtain h | rfl | h := h
  · exact (of_mem_encode h).1
  · decide
  · exact (of_mem_encode h).1

end Form

end RemoteSigning.Url
