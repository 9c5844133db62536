import RemoteSigning.Proofs.Lists
import RemoteSigning.Proofs.Url.Escapes
import RemoteSigning.Proofs.Url.Punycode
import RemoteSigning.Url.Domain

/-!
# Domains have one form

The form in which a name is looked up is itself a name, and its own form. Folding a character twice
changes nothing, and a label in Punycode stands for the label that it was made of.
-/

namespace RemoteSigning.Url

open Text Items

namespace Domain

/-- Folding twice changes nothing. -/
theorem fold_fold_of_lt : ∀ n < 0x430, ∀ d ∈ fold (Char.ofNat n), fold d = [d] := by
  decide +kernel

theorem foldGreekOrCyrillic_of_le {c : Char} (h : 0x430 ≤ c.toNat) :
    foldGreekOrCyrillic c = [c] := by
  simp only [foldGreekOrCyrillic]
  split_ifs <;> first | rfl | omega

/-- What a character stands for stands for itself. Beyond the capitals of the Cyrillic script only
the forms of full width stand for others, and those for ASCII characters. -/
theorem fold_fold {c d : Char} (h : d ∈ fold c) : fold d = [d] := by
  by_cases hTable : c.toNat < 0x430
  · exact fold_fold_of_lt c.toNat hTable d (by rwa [Char.ofNat_toNat])
  · have hSelf := foldGreekOrCyrillic_of_le (Nat.le_of_not_lt hTable)
    have hFold := fold.eq_def c
    rw [if_neg (by omega), if_neg (c := c.toNat < 0x180) (by omega), hSelf] at hFold
    split_ifs at hFold with hIgnored hStop hWide
    · rw [hFold] at h
      cases h
    · rw [hFold, List.mem_singleton] at h
      rw [h]
      decide
    · have hAscii : c.toNat - 0xFEE0 < 0x430 := by omega
      refine fold_fold_of_lt _ hAscii d ?_
      rw [hFold] at h
      rwa [fold, if_pos (by rw [toNat_ofNat (by omega)]; omega)]
    · rw [hFold, List.mem_singleton] at h
      rw [h, hFold]

/-- A label as it stands in a form: nothing in it is folded, and it is what it stands for. -/
structure Formed (label : List Char) : Prop where
  folded : ∀ c ∈ label, fold c = [c]
  pointless : '.' ∉ label
  read : label? label = some label

theorem fold_of_mem_mark : ∀ c ∈ mark, fold c = [c] ∧ c ≠ '.' := by decide

theorem fold_digit : ∀ n < 36, fold (Punycode.digit n) = [Punycode.digit n] := by decide

theorem digit_ne_point : ∀ n < 36, Punycode.digit n ≠ '.' := by decide

theorem flatMap_fold_of_folded {cs : List Char} (h : ∀ c ∈ cs, fold c = [c]) :
    cs.flatMap fold = cs := by
  induction cs with
  | nil => rfl
  | cons c cs ih =>
    rw [List.flatMap_cons, h c List.mem_cons_self, ih fun x hx => h x (List.mem_cons_of_mem _ hx)]
    rfl

/-- The ASCII form of a label that is folded and has nothing foreign is that of a label. -/
theorem isEncoded_encode {label : List Char} (hFolded : ∀ c ∈ label, fold c = [c])
    (hBeyond : ¬ label.all Punycode.isAscii) (hForeign : ¬ label.any isForeign) :
    isEncoded (Punycode.encode label) = true := by
  have hAny : label.any (!Punycode.isAscii ·) = true := by
    rw [List.any_eq_not_all_not]
    simpa using hBeyond
  rw [isEncoded, Punycode.decode?_encode]
  dsimp only
  rw [hAny, flatMap_fold_of_folded hFolded, Bool.eq_false_iff.mpr hForeign, beq_self_eq_true,
    beq_self_eq_true]
  rfl

/-- The form of a label stays as it is. -/
theorem formed_of_label? {label form : List Char} (hFolded : ∀ c ∈ label, fold c = [c])
    (hPointless : '.' ∉ label) (h : label? label = some form) : Formed form := by
  have hLabel := h
  rw [label?] at h
  split_ifs at h with hMark hEncoded hAscii hForeign
  · obtain rfl := Option.some.inj h
    exact ⟨hFolded, hPointless, hLabel⟩
  · obtain rfl := Option.some.inj h
    exact ⟨hFolded, hPointless, hLabel⟩
  · obtain rfl := Option.some.inj h
    have hChar : ∀ c ∈ mark ++ Punycode.encode label, fold c = [c] ∧ c ≠ '.' := by
      intro c hc
      obtain hc | hc := List.mem_append.mp hc
      · exact fold_of_mem_mark c hc
      · obtain ⟨hc, -⟩ | rfl | ⟨n, hn, rfl⟩ := Punycode.mem_encode hc
        · exact ⟨hFolded c hc, fun hPoint => hPointless (hPoint ▸ hc)⟩
        · decide
        · exact ⟨fold_digit n hn, digit_ne_point n hn⟩
    have hPrefix : mark.isPrefixOf (mark ++ Punycode.encode label) = true :=
      List.isPrefixOf_iff_prefix.mpr (List.prefix_append ..)
    refine ⟨fun c hc => (hChar c hc).1, fun hPoint => (hChar _ hPoint).2 rfl, ?_⟩
    rw [label?, if_pos hPrefix, List.drop_left,
      if_pos (isEncoded_encode hFolded hAscii hForeign)]

/-- A domain consists of printable characters of ASCII. -/
theorem lt_of_isAllowed {c : Char} (h : isAllowed c = true) : 0x20 < c.toNat ∧ c.toNat < 0x7F := by
  simp only [isAllowed, Bool.and_eq_true, decide_eq_true_eq] at h
  exact h.1

theorem notMem_of_isAllowed {c : Char} (h : isAllowed c = true) : c ∉ forbidden := by
  simp only [isAllowed, Bool.and_eq_true, Bool.not_eq_true', List.contains_eq_mem,
    decide_eq_false_iff_not] at h
  exact h.2

/-- A name that is put together from formed labels is its own form. -/
theorem ofOctets?_of_formed {labels : List (List Char)} (hSome : labels ≠ [])
    (hFormed : ∀ l ∈ labels, Formed l) (hAllowed : (['.'].intercalate labels).all isAllowed) :
    ofOctets? ((['.'].intercalate labels).flatMap charOctets) = some (['.'].intercalate labels) := by
  have hFolded : (['.'].intercalate labels).flatMap fold = ['.'].intercalate labels := by
    refine flatMap_fold_of_folded fun c hc => ?_
    obtain hc | ⟨l, hl, hc⟩ := mem_intercalate hc
    · rw [List.mem_singleton.mp hc]
      decide
    · exact (hFormed l hl).folded c hc
  have hLabels : labels.mapM label? = some labels :=
    mapM_eq_some.mpr (List.forall₂_same.mpr fun l hl => (hFormed l hl).read)
  rw [ofOctets?, ofOctets?_flatMap, Option.bind_eq_bind, Option.bind_some, String.toList_ofList,
    hFolded, List.splitOn_intercalate '.' (fun l hl => (hFormed l hl).pointless) hSome, hLabels,
    Option.bind_eq_bind, Option.bind_some]
  exact if_pos hAllowed

/-- What is read is put together from formed labels. -/
theorem exists_formed {bytes : List UInt8} {cs : List Char} (h : ofOctets? bytes = some cs) :
    ∃ labels, labels ≠ [] ∧ (∀ l ∈ labels, Formed l) ∧ cs = ['.'].intercalate labels ∧
      cs.all isAllowed := by
  obtain ⟨name, -, h⟩ := Option.bind_eq_some_iff.mp h
  obtain ⟨labels, hLabels, h⟩ := Option.bind_eq_some_iff.mp h
  rw [mapM_eq_some] at hLabels
  dsimp only at h
  split_ifs at h with hAllowed
  obtain rfl := Option.some.inj h
  refine ⟨labels, ?_, ?_, rfl, hAllowed⟩
  · rintro rfl
    exact List.splitOn_ne_nil _ _ (List.forall₂_nil_right_iff.mp hLabels)
  · intro form hForm
    obtain ⟨label, hLabel, hRead⟩ := exists_left_of_mem hLabels hForm
    rw [List.splitOn_eq_splitOnP] at hLabel
    refine formed_of_label? (fun c hc => ?_) (fun hPoint => ?_) hRead
    · obtain ⟨hMem, -⟩ := of_mem_splitOnP hLabel hc
      obtain ⟨d, -, hFold⟩ := List.mem_flatMap.mp hMem
      exact fold_fold hFold
    · exact absurd (of_mem_splitOnP hLabel hPoint).2 (by decide)

/-- The form of a name is its own form. -/
theorem ofOctets?_of_form {bytes : List UInt8} {cs : List Char} (h : ofOctets? bytes = some cs) :
    ofOctets? (cs.flatMap charOctets) = some cs := by
  obtain ⟨labels, hSome, hFormed, rfl, hAllowed⟩ := exists_formed h
  exact ofOctets?_of_formed hSome hFormed hAllowed

theorem of_digit : ∀ d < 10, fold (Char.ofNat (48 + d)) = [Char.ofNat (48 + d)] ∧
    isAllowed (Char.ofNat (48 + d)) = true ∧ Char.ofNat (48 + d) ∉ ['.', 'x'] ∧
    Punycode.isAscii (Char.ofNat (48 + d)) = true := by
  decide

theorem formed_of_isDigit {label : List Char} (h : ∀ c ∈ label, c.isDigit = true) : Formed label := by
  have hDigit (c : Char) (hc : c ∈ label) : fold c = [c] ∧ isAllowed c = true ∧ c ∉ ['.', 'x'] ∧
      Punycode.isAscii c = true := by
    obtain ⟨d, hd, rfl⟩ := exists_of_isDigit (h c hc)
    exact of_digit d hd
  have hMark : ¬ mark.isPrefixOf label = true := by
    intro hPrefix
    rw [List.isPrefixOf_iff_prefix] at hPrefix
    exact (hDigit 'x' (hPrefix.subset (by decide))).2.2.1 (by decide)
  have hAscii : label.all Punycode.isAscii = true :=
    List.all_eq_true.mpr fun c hc => (hDigit c hc).2.2.2
  exact ⟨fun c hc => (hDigit c hc).1, fun hPoint => (hDigit _ hPoint).2.2.1 (by decide),
    by rw [label?, if_neg hMark, if_pos hAscii]⟩

end Domain

end RemoteSigning.Url
