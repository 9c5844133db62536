import RemoteSigning.Token.Basic
import RemoteSigning.Proofs.Base64
import RemoteSigning.Proofs.Json.Parsing
import RemoteSigning.Proofs.Text.Utf8

/-!
# The segments of a token

A token is split at its last two points, and no segment that is base64 has a point of its own. What
a segment stands for is the JSON behind the base64.
-/

namespace RemoteSigning.Token

open Json

/-- A text is split at its last point. -/
theorem splitLast?_eq_some {text before after : String} :
    splitLast? text = some (before, after) ↔
      text = before ++ "." ++ after ∧ '.' ∉ after.toList := by
  constructor
  · intro h
    have hText : text.toList.reverse.takeWhile (· != '.') ++
        text.toList.reverse.dropWhile (· != '.') = text.toList.reverse :=
      List.takeWhile_append_dropWhile
    have hAfter : '.' ∉ text.toList.reverse.takeWhile (· != '.') := by
      intro hPoint
      simpa using List.mem_takeWhile_imp hPoint
    have hFirst := List.head_dropWhile_not (· != '.') (l := text.toList.reverse)
    simp only [splitLast?] at h
    generalize text.toList.reverse.takeWhile (· != '.') = tail at *
    generalize text.toList.reverse.dropWhile (· != '.') = start at *
    cases start with
    | nil => cases h
    | cons point start =>
        obtain ⟨rfl, rfl⟩ := Prod.mk.inj (Option.some.inj h)
        obtain rfl : point = '.' := by simpa using hFirst (List.cons_ne_nil _ _)
        refine ⟨?_, by simpa using hAfter⟩
        have hChars := congrArg List.reverse hText
        apply String.toList_inj.mp
        simpa using hChars.symm
  · rintro ⟨rfl, hAfter⟩
    have hOther : ∀ c ∈ after.toList.reverse, (c != '.') = true := by
      intro c hc
      rw [bne_iff_ne]
      rintro rfl
      exact hAfter (List.mem_reverse.mp hc)
    have hText : (before ++ "." ++ after).toList.reverse =
        after.toList.reverse ++ '.' :: before.toList.reverse := by simp
    simp only [splitLast?, hText, List.dropWhile_append_of_pos hOther,
      List.takeWhile_append_of_pos hOther]
    simp

/-- The token that consists of the segments. -/
def Segments.text (s : Segments) : String := s.signed ++ "." ++ s.signature

/-- Whether the points between the segments are the last two of the token. -/
structure Segments.AtLastPoints (s : Segments) : Prop where
  payload : '.' ∉ s.payload.toList
  signature : '.' ∉ s.signature.toList

variable {s s' : Segments} {token : String}

theorem Segments.ofText?_eq_some : ofText? token = some s ↔ s.AtLastPoints ∧ token = s.text := by
  simp only [ofText?, Option.bind_eq_bind, Option.bind_eq_some_iff, Option.pure_def,
    Option.some.injEq, Prod.exists, splitLast?_eq_some]
  constructor
  · rintro ⟨signed, signature, ⟨rfl, hSignature⟩, header, payload, ⟨rfl, hPayload⟩, rfl⟩
    exact ⟨⟨hPayload, hSignature⟩, rfl⟩
  · rintro ⟨⟨hPayload, hSignature⟩, rfl⟩
    exact ⟨s.signed, s.signature, ⟨rfl, hSignature⟩, s.header, s.payload, ⟨rfl, hPayload⟩, rfl⟩

/-- A token has one way to be split. -/
theorem Segments.AtLastPoints.eq_of_text_eq (h : s.AtLastPoints) (h' : s'.AtLastPoints)
    (hText : s.text = s'.text) : s = s' := by
  have hFirst := Segments.ofText?_eq_some.mpr ⟨h, rfl⟩
  have hSecond := Segments.ofText?_eq_some.mpr ⟨h', hText⟩
  exact Option.some.inj (hFirst.symm.trans hSecond)

theorem point_notMem_encodeUrl (bytes : List UInt8) :
    '.' ∉ (Base64.encodeUrl bytes).toList := by
  intro hPoint
  obtain ⟨n, hn, hSymbol⟩ := Base64.exists_symbol_of_mem_encodeUrl hPoint
  have hOther : ∀ n < 64, Base64.Alphabet.urlSafe.symbol n ≠ '.' := by decide +kernel
  exact hOther n hn hSymbol

/-- Whether a segment is the unpadded base64 of JSON that is read as the value. -/
def Holds {α : Type} (decoder : Decoder α) (segment : String) (a : α) : Prop :=
  ∃ bytes, segment = Base64.encodeUrl bytes ∧ decodeSource decoder (Text.positions bytes) = .ok a

variable {α : Type} {decoder : Decoder α} {text : String} {a b : α}

/-- What a segment holds is what it is decoded as. -/
theorem decodeSegment_eq_ok : decodeSegment decoder text = .ok a ↔ Holds decoder text a := by
  simp only [decodeSegment, Except.bind_eq_ok, Except.mapError_eq_ok, Base64.decodeUrl_eq_ok, Holds]

/-- A segment holds one thing only. -/
theorem Holds.unique (h : Holds decoder text a) (h' : Holds decoder text b) : a = b :=
  Except.ok.inj ((decodeSegment_eq_ok.mpr h).symm.trans (decodeSegment_eq_ok.mpr h'))

/-- There is no point in a segment that holds something. -/
theorem Holds.point_notMem (h : Holds decoder text a) : '.' ∉ text.toList := by
  obtain ⟨bytes, rfl, -⟩ := h
  exact point_notMem_encodeUrl bytes

/-- The segment that is written for a value is read from the tree of the value. -/
theorem holds_segment {v : Value} (hNumbers : v.EveryNumber Numeral.IsExact) :
    Holds decoder (segment v.compact) a ↔ decoder Place.start (Document.ofValue v) = .ok a := by
  have hSource : decodeSource decoder (Text.positions (Text.octets v.compact)) =
      decoder Place.start (Document.ofValue v) := by
    rw [Text.positions_octets, decodeSource, read_compact hNumbers]
    cases decoder Place.start (Document.ofValue v) <;> rfl
  rw [← decodeSegment_eq_ok, decodeSegment, segment, Base64.decodeUrl_eq_ok.mpr rfl,
    Except.mapError_ok, Except.ok_bind, hSource, Except.mapError_eq_ok]

end RemoteSigning.Token
