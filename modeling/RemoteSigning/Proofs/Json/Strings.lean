import RemoteSigning.Json.Document
import RemoteSigning.Json.Printer
import RemoteSigning.Proofs.Results
import RemoteSigning.Proofs.Text.Digits
import RemoteSigning.Proofs.Text.Utf8
import Mathlib.Tactic.SplitIfs

/-!
# Strings read back

A quoted string is read back as it was, whatever characters it holds and whatever follows it.
-/

namespace RemoteSigning.Json

open Text

/-- Whether reading a piece gives a character. A control character without a short escape is written
by its number. -/
def Piece.Spells (p : Piece) (c : Char) : Prop :=
  p = .plain (some c) ∨ p = .code c.toNat ∧ c.toNat < 32

/-- A control is read from the four digits that are written for it. -/
theorem fourDigits_lowerDigit {n : Nat} (h : n < 256) :
    fourDigits (some '0') (some '0') (some (Hex.lowerDigit (n / 16)))
      (some (Hex.lowerDigit (n % 16))) = some n := by
  have hZero : Hex.digit? '0' = some 0 := by decide
  simp only [fourDigits, Option.bind_eq_bind, Option.bind_some, Option.pure_def, hZero,
    Hex.digit?_lowerDigit (n / 16) (by omega), Hex.digit?_lowerDigit (n % 16) (by omega)]
  congr 1
  omega

/-- A short escape is read as the character for which it stands. -/
theorem readPieces_shortEscape {d c : Char} (hEscape : shortEscape (some d) = some c)
    (hNumber : d ≠ 'u') (rest : Source) :
    readPieces (some '\\' :: some d :: rest) =
      (.plain (some c) :: (readPieces rest).1, (readPieces rest).2) := by
  simp [readPieces, hEscape, hNumber]

/-- The escape of a character is read as one piece that spells it. -/
theorem readPieces_escape (c : Char) (rest : Source) :
    ∃ p : Piece, p.Spells c ∧
      readPieces ((escape c).map some ++ rest) = (p :: (readPieces rest).1, (readPieces rest).2) := by
  unfold escape
  split_ifs with hQuote hBackslash hBackspace hFeed hLine hReturn hTab hControl
  · exact ⟨_, .inl rfl, readPieces_shortEscape (by rw [hQuote]; rfl) (by decide) rest⟩
  · exact ⟨_, .inl rfl, readPieces_shortEscape (by rw [hBackslash]; rfl) (by decide) rest⟩
  · exact ⟨_, .inl rfl, readPieces_shortEscape (by rw [hBackspace]; rfl) (by decide) rest⟩
  · exact ⟨_, .inl rfl, readPieces_shortEscape (by rw [hFeed]; rfl) (by decide) rest⟩
  · exact ⟨_, .inl rfl, readPieces_shortEscape (by rw [hLine]; rfl) (by decide) rest⟩
  · exact ⟨_, .inl rfl, readPieces_shortEscape (by rw [hReturn]; rfl) (by decide) rest⟩
  · exact ⟨_, .inl rfl, readPieces_shortEscape (by rw [hTab]; rfl) (by decide) rest⟩
  · refine ⟨_, .inr ⟨rfl, hControl⟩, ?_⟩
    have hDigits := fourDigits_lowerDigit (n := c.toNat) (by omega)
    simp [readPieces, hDigits]
  · refine ⟨_, .inl rfl, ?_⟩
    have hPlain : isControl (some c) = false := by simpa [isControl] using hControl
    simp [readPieces, hQuote, hBackslash, hPlain]

/-- A piece that spells a character adds it to the string. -/
theorem joinPieces_of_spells {p : Piece} {c : Char} (h : p.Spells c) (e : StringEnd)
    (ps : List Piece) :
    joinPieces e (p :: ps) = (joinPieces e ps).map (some c :: ·) := by
  rcases h with rfl | ⟨rfl, hControl⟩
  · rfl
  · have hLow : isLowSurrogate c.toNat = false := by
      simp only [isLowSurrogate, Bool.and_eq_false_iff, decide_eq_false_iff_not]
      omega
    have hHigh : isHighSurrogate c.toNat = false := by
      simp only [isHighSurrogate, Bool.and_eq_false_iff, decide_eq_false_iff_not]
      omega
    rw [joinPieces.eq_def]
    simp only [hLow, hHigh, Char.ofNat_toNat]
    rfl

/-- The inside of a quoted string is read as pieces that join to its characters. -/
theorem readPieces_flatMap_escape (cs : List Char) (rest : Source) :
    ∃ ps, readPieces ((cs.flatMap escape ++ ['"']).map some ++ rest) = (ps, .closed, rest) ∧
      joinPieces .closed ps = .ok (cs.map some) := by
  induction cs with
  | nil => exact ⟨[], by simp [readPieces], rfl⟩
  | cons c cs ih =>
      obtain ⟨ps, hRead, hJoin⟩ := ih
      obtain ⟨p, hSpells, hPiece⟩ :=
        readPieces_escape c ((cs.flatMap escape ++ ['"']).map some ++ rest)
      refine ⟨p :: ps, ?_, ?_⟩
      · rw [List.flatMap_cons, List.append_assoc, List.map_append, List.append_assoc, hPiece, hRead]
      · rw [joinPieces_of_spells hSpells, hJoin]
        rfl

/-- A string that was quoted is read up to the quotation mark at its end. -/
theorem readPieces_quote (s : String) (rest : Source) :
    ∃ ps, readPieces ((s.toList.flatMap escape ++ ['"']).map some ++ rest) = (ps, .closed, rest) ∧
      stringOf .closed ps = .ok s := by
  obtain ⟨ps, hRead, hJoin⟩ := readPieces_flatMap_escape s.toList rest
  refine ⟨ps, hRead, ?_⟩
  simp only [stringOf, hJoin, Except.ok_bind, mapM_id_map_some, String.ofList_toList]
  rfl

/-- Texts that start with quoted strings are the same only if the strings are. -/
theorem quote_append_inj {s t : String} {rest rest' : List Char}
    (h : quote s ++ rest = quote t ++ rest') : s = t := by
  obtain ⟨ps, hRead, hString⟩ := readPieces_quote s (rest.map some)
  obtain ⟨ps', hRead', hString'⟩ := readPieces_quote t (rest'.map some)
  simp only [quote, List.cons_append, List.cons.injEq, true_and] at h
  rw [← List.map_append, h, List.map_append, hRead', Prod.mk.injEq] at hRead
  rw [hRead.1, hString] at hString'
  exact Except.ok.inj hString'

end RemoteSigning.Json
