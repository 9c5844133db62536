import RemoteSigning.Proofs.Lists
import RemoteSigning.Proofs.Text.Digits
import RemoteSigning.Url.Ipv4
import RemoteSigning.Url.Ipv6

/-!
# Addresses are read back

An address is written in one way, whichever way it was read from, and what is written is read as the
address.
-/

namespace RemoteSigning.Url

open Text Items

namespace Ipv4

/-- The digits of an octet are a number that is read back, and no octal one. -/
theorem number?_octet :
    ∀ n < 256, number? (toString n).toList = some n ∧ (toString n).toList.all Char.isDigit ∧
      (toString n).toList ≠ [] ∧ '.' ∉ (toString n).toList := by
  decide +kernel

/-- The octets of an address, first one first. -/
def octetsOf (address : Nat) : List Nat :=
  [address / 2 ^ 24, address / 2 ^ 16 % 256, address / 2 ^ 8 % 256, address % 256]

theorem octetsOf_lt {address : Nat} (h : address < 2 ^ 32) : ∀ n ∈ octetsOf address, n < 256 := by
  simp only [octetsOf, List.forall_mem_cons, List.not_mem_nil, false_implies, implies_true, and_true]
  omega

theorem toList_text (address : Nat) :
    (text address).toList =
      ['.'].intercalate ((octetsOf address).map fun n => (toString n).toList) := by
  rw [text, String.toList_intercalate, List.map_map]
  rfl

/-- An address is put together from its four octets. -/
theorem combine_octetsOf (address : Nat) :
    combine (address % 256) 24 [address / 2 ^ 24, address / 2 ^ 16 % 256, address / 2 ^ 8 % 256] =
      address := by
  simp only [combine]
  omega

/-- The text of an address is split into the numbers that were written. -/
theorem parts_text {address : Nat} (h : address < 2 ^ 32) :
    parts (text address).toList = (octetsOf address).map fun n => (toString n).toList := by
  have hPointless : ∀ l ∈ (octetsOf address).map fun n => (toString n).toList, '.' ∉ l := by
    intro l hl
    obtain ⟨n, hn, rfl⟩ := List.mem_map.mp hl
    exact (number?_octet n (octetsOf_lt h n hn)).2.2.2
  have hLast := (number?_octet (address % 256) (Nat.mod_lt _ (by omega))).2.2.1
  rw [parts, toList_text, List.splitOn_intercalate '.' hPointless (List.cons_ne_nil _ _)]
  refine if_neg fun hEmpty => hLast ?_
  exact Option.some.inj hEmpty

theorem isMeant_text {address : Nat} (h : address < 2 ^ 32) : isMeant (text address).toList = true := by
  obtain ⟨-, hDigits, hSome, -⟩ := number?_octet (address % 256) (Nat.mod_lt _ (by omega))
  have hLast : (parts (text address).toList).getLast? = some (toString (address % 256)).toList := by
    rw [parts_text h]
    rfl
  rw [isMeant, hLast]
  dsimp only
  rw [hDigits, List.isEmpty_eq_false_iff.mpr hSome]
  rfl

/-- An address is made of at most four numbers: each but the last one is an octet, and the last one
fits into what they leave. -/
theorem ofName?_eq_some {name : List Char} {address : Nat} :
    ofName? name = some address ↔
      (parts name).length ≤ 4 ∧ ∃ numbers last, (parts name).mapM number? = some numbers ∧
        numbers.getLast? = some last ∧ last < 2 ^ (32 - 8 * numbers.dropLast.length) ∧
        (∀ n ∈ numbers.dropLast, n < 256) ∧ combine last 24 numbers.dropLast = address := by
  constructor
  · intro h
    simp only [ofName?, Option.bind_eq_bind, Option.bind_none] at h
    split_ifs at h with hMany
    obtain ⟨numbers, hNumbers, h⟩ := Option.bind_eq_some_iff.mp h
    obtain ⟨last, hLast, h⟩ := Option.bind_eq_some_iff.mp h
    split_ifs at h with hLarge
    simp only [Bool.or_eq_true, decide_eq_true_eq, List.any_eq_true, not_or, not_exists, not_and,
      Nat.not_lt, Nat.not_le] at hLarge
    exact ⟨Nat.le_of_not_lt hMany, numbers, last, hNumbers, hLast, hLarge.1,
      fun n hn => Nat.lt_succ_of_le (hLarge.2 n hn), Option.some.inj h⟩
  · rintro ⟨hFew, numbers, last, hNumbers, hLast, hFits, hOctets, rfl⟩
    have hSmall : ¬ (2 ^ (32 - 8 * numbers.dropLast.length) ≤ last ||
        numbers.dropLast.any (255 < ·)) = true := by
      simp only [Bool.or_eq_true, decide_eq_true_eq, List.any_eq_true, not_or, not_exists, not_and,
        Nat.not_lt, Nat.not_le]
      exact ⟨hFits, fun n hn => Nat.le_of_lt_succ (hOctets n hn)⟩
    simp only [ofName?, Option.bind_eq_bind, if_neg (Nat.not_lt.mpr hFew), hNumbers, hLast,
      Option.bind_some, if_neg hSmall]
    rfl

/-- An address is read from its text. -/
theorem ofName?_text {address : Nat} (h : address < 2 ^ 32) :
    ofName? (text address).toList = some address := by
  rw [ofName?_eq_some, parts_text h]
  refine ⟨Nat.le_refl 4, octetsOf address, address % 256, ?_, rfl, Nat.mod_lt _ (by decide), ?_,
    combine_octetsOf address⟩
  · rw [mapM_eq_some, List.forall₂_map_left_iff, List.forall₂_same]
    exact fun n hn => (number?_octet n (octetsOf_lt h n hn)).1
  · exact fun n hn => octetsOf_lt h n ((List.dropLast_subset _) hn)

/-- What is put together from octets is an address. -/
theorem combine_lt {last : Nat} {first : List Nat} (hFew : first.length ≤ 3)
    (hOctets : ∀ n ∈ first, n < 256) (hFits : last < 2 ^ (32 - 8 * first.length)) :
    combine last 24 first < 2 ^ 32 := by
  match first with
  | [] => simpa [combine] using hFits
  | [a] | [a, b] | [a, b, c] =>
    simp only [combine, List.forall_mem_cons, List.length_cons, List.length_nil] at *
    omega
  | _ :: _ :: _ :: _ :: _ => simp only [List.length_cons] at hFew; omega

/-- What is read is an address of 32 bits. -/
theorem lt_of_ofName? {name : List Char} {address : Nat} (h : ofName? name = some address) :
    address < 2 ^ 32 := by
  obtain ⟨hFew, numbers, last, hNumbers, -, hFits, hOctets, rfl⟩ := ofName?_eq_some.mp h
  have hLength := (mapM_eq_some.mp hNumbers).length_eq
  exact combine_lt (by rw [List.length_dropLast]; omega) hOctets hFits

end Ipv4

namespace Ipv6

theorem digit?_colon : Hex.digit? ':' = none := by decide

theorem readDigits_of_stop {rest : List Char} (h : ∀ c ∈ rest.head?, Hex.digit? c = none)
    (n width : Nat) : readDigits n width rest = (n, rest) := by
  cases width with
  | zero => rfl
  | succ width =>
    cases rest with
    | nil => rfl
    | cons c rest => rw [readDigits, h c rfl]

theorem toDigits_cases (n : Nat) :
    (∃ d < 16, n = d ∧ Nat.toDigits 16 n = [Nat.digitChar d]) ∨
      ∃ m d, m < n ∧ d < 16 ∧ n = m * 16 + d ∧
        Nat.toDigits 16 n = Nat.toDigits 16 m ++ [Nat.digitChar d] := by
  by_cases h : n < 16
  · exact .inl ⟨n, h, rfl, Nat.toDigits_of_lt_base h⟩
  · refine .inr ⟨n / 16, n % 16, by omega, by omega, by omega, ?_⟩
    exact Nat.toDigits_of_base_le (by decide) (Nat.le_of_not_lt h)

theorem exists_digit_of_mem_ofNat {n : Nat} {c : Char} (h : c ∈ Hex.ofNat n) :
    ∃ d < 16, c = Nat.digitChar d := by
  rw [Hex.ofNat] at h
  induction n using Nat.strongRecOn with
  | ind n ih =>
    obtain ⟨d, hd, -, hDigits⟩ | ⟨m, d, hm, hd, -, hDigits⟩ := toDigits_cases n
    · rw [hDigits, List.mem_singleton] at h
      exact ⟨d, hd, h⟩
    · rw [hDigits, List.mem_append, List.mem_singleton] at h
      exact h.elim (ih m hm) fun h => ⟨d, hd, h⟩

theorem ofNat_ne_nil (n : Nat) : Hex.ofNat n ≠ [] := Nat.toDigits_ne_nil

/-- The digits of a number are read as the number. -/
theorem readDigits_append (n width : Nat) (rest : List Char) :
    readDigits 0 ((Hex.ofNat n).length + width) (Hex.ofNat n ++ rest) =
      readDigits n width rest := by
  have hDigit (m d width : Nat) (rest : List Char) (hd : d < 16) :
      readDigits m (width + 1) (Nat.digitChar d :: rest) = readDigits (m * 16 + d) width rest := by
    rw [readDigits, Hex.digit?_digitChar d hd]
  rw [Hex.ofNat]
  induction n using Nat.strongRecOn generalizing width rest with
  | ind n ih =>
    obtain ⟨d, hd, hn, hDigits⟩ | ⟨m, d, hm, hd, hn, hDigits⟩ := toDigits_cases n
    · rw [hDigits, List.singleton_append, List.length_singleton, Nat.add_comm, hDigit _ _ _ _ hd,
        hn, Nat.zero_mul, Nat.zero_add]
    · rw [hDigits, List.append_assoc, List.length_append, List.length_singleton, Nat.add_assoc,
        ih m hm, List.singleton_append, Nat.add_comm, hDigit _ _ _ _ hd, hn]

/-- A number of 16 bits is read up to what ends it. -/
theorem readDigits_ofNat {n : Nat} (rest : List Char) (h : n < 2 ^ 16)
    (hStop : ∀ c ∈ rest.head?, Hex.digit? c = none) :
    readDigits 0 4 (Hex.ofNat n ++ rest) = (n, rest) := by
  have hFew : (Hex.ofNat n).length ≤ 4 :=
    (Nat.length_toDigits_le_iff (by decide) (by decide)).mpr h
  obtain ⟨width, hWidth⟩ := Nat.exists_eq_add_of_le hFew
  rw [hWidth, readDigits_append, readDigits_of_stop hStop]

/-- How many places of an address are taken. -/
def Progress.taken (p : Progress) : Nat := p.reversed.length + p.gap.elim 0 fun _ => 1

/-- The place of a number in an address. -/
def Progress.push (p : Progress) (n : Nat) : Progress := { p with reversed := n :: p.reversed }

theorem digitChar_ne_colon : ∀ d < 16, Nat.digitChar d ≠ ':' := by decide

variable {p q : Progress} {n fuel : Nat}

theorem exists_ofNat_eq_cons (n : Nat) : ∃ c cs, Hex.ofNat n = c :: cs ∧ c ≠ ':' := by
  obtain ⟨c, cs, hChars⟩ := List.exists_cons_of_ne_nil (ofNat_ne_nil n)
  obtain ⟨d, hd, hDigit⟩ := exists_digit_of_mem_ofNat (hChars ▸ List.mem_cons_self)
  exact ⟨c, cs, hChars, hDigit ▸ digitChar_ne_colon d hd⟩

/-- The last number is read to the end. -/
theorem read_last (hNumber : n < 2 ^ 16) (hRoom : p.taken < 8) :
    read (fuel + 1) p (Hex.ofNat n) = some (p.push n) := by
  have hDigits := readDigits_ofNat [] hNumber (by simp)
  rw [List.append_nil] at hDigits
  obtain ⟨c, cs, hChars, hColon⟩ := exists_ofNat_eq_cons n
  rw [hChars] at hDigits ⊢
  rw [read, hDigits]
  · exact if_neg (Nat.not_le.mpr hRoom)
  · exact List.cons_ne_nil c cs
  · exact fun rest h => hColon (List.cons.inj h).1

/-- A number with a colon after it is read, and then the rest. -/
theorem read_next {more : List Char} (hNumber : n < 2 ^ 16) (hRoom : p.taken < 8)
    (hMore : more ≠ []) :
    read (fuel + 1) p (Hex.ofNat n ++ ':' :: more) = read fuel (p.push n) more := by
  have hDigits := readDigits_ofNat (':' :: more) hNumber (by simp [digit?_colon])
  obtain ⟨c, cs, hChars, hColon⟩ := exists_ofNat_eq_cons n
  rw [hChars, List.cons_append] at hDigits ⊢
  rw [read, hDigits]
  · refine (if_neg (Nat.not_le.mpr hRoom)).trans ?_
    exact if_neg (by rw [List.isEmpty_iff]; exact hMore)
  · exact List.cons_ne_nil c _
  · exact fun rest h => hColon (List.cons.inj h).1

/-- A colon more begins the gap, if there is none yet. -/
theorem read_gap {rest : List Char} (hGap : p.gap = none) (hRoom : p.taken < 8) :
    read (fuel + 1) p (':' :: rest) = read fuel { p with gap := some p.reversed.length } rest := by
  rw [read]
  · refine (if_neg (Nat.not_le.mpr hRoom)).trans ?_
    exact if_neg (by rw [hGap]; decide)

theorem taken_push (p : Progress) (n : Nat) : (p.push n).taken = p.taken + 1 := by
  simp only [Progress.taken, Progress.push, List.length_cons]
  omega

theorem colons_cons {ns : List Nat} (h : ns ≠ []) (n : Nat) :
    colons (n :: ns) = Hex.ofNat n ++ ':' :: colons ns := by
  rw [colons, List.map_cons, List.intercalate_cons_of_ne_nil (by simpa using h), List.append_assoc]
  rfl

theorem exists_colons_eq (n : Nat) (ns : List Nat) :
    ∃ more, colons (n :: ns) = Hex.ofNat n ++ more ∧ (ns ≠ [] → more ≠ []) := by
  by_cases hLast : ns = []
  · exact ⟨[], by rw [hLast, List.append_nil]; exact List.intercalate_singleton, absurd hLast⟩
  · exact ⟨_, colons_cons hLast n, fun _ => List.cons_ne_nil _ _⟩

theorem colons_singleton (n : Nat) : colons [n] = Hex.ofNat n := List.intercalate_singleton

theorem colons_ne_nil {ns : List Nat} (h : ns ≠ []) : colons ns ≠ [] := by
  obtain ⟨n, ns, rfl⟩ := List.exists_cons_of_ne_nil h
  by_cases hLast : ns = []
  · rw [hLast, colons_singleton]
    exact ofNat_ne_nil n
  · rw [colons_cons hLast]
    exact List.append_ne_nil_of_left_ne_nil (ofNat_ne_nil n) _

theorem length_le_colons (ns : List Nat) : ns.length ≤ (colons ns).length := by
  induction ns with
  | nil => exact Nat.zero_le _
  | cons n ns ih =>
    have hDigit := List.length_pos_of_ne_nil (ofNat_ne_nil n)
    by_cases hLast : ns = []
    · rw [hLast, colons_singleton]
      exact hDigit
    · rw [colons_cons hLast, List.length_append, List.length_cons, List.length_cons]
      omega

/-- Numbers between colons are read to the end. -/
theorem read_colons {ns : List Nat} (fuel : Nat) (hNumbers : ∀ n ∈ ns, n < 2 ^ 16)
    (hRoom : p.taken + ns.length ≤ 8) (hFuel : ns.length < fuel) :
    read fuel p (colons ns) = some { p with reversed := ns.reverse ++ p.reversed } := by
  induction ns generalizing p fuel with
  | nil =>
    obtain ⟨fuel, rfl⟩ := Nat.exists_eq_add_of_le' (Nat.succ_le_of_lt hFuel)
    rfl
  | cons n ns ih =>
    rw [List.forall_mem_cons] at hNumbers
    rw [List.length_cons] at hRoom hFuel
    obtain ⟨fuel, rfl⟩ := Nat.exists_eq_add_of_le' (Nat.le_trans (Nat.le_add_left 1 _) hFuel)
    by_cases hLast : ns = []
    · subst hLast
      rw [colons_singleton, read_last hNumbers.1 (by omega)]
      rfl
    · rw [colons_cons hLast, read_next hNumbers.1 (by omega) (colons_ne_nil hLast),
        ih fuel hNumbers.2 (by rw [taken_push]; omega) (by omega), Progress.push,
        List.reverse_cons, List.append_assoc, List.singleton_append]

/-- Numbers up to two colons are read, and what follows is read as what comes after the gap. -/
theorem read_colons_gap {ns : List Nat} {rest : List Char} (hSome : ns ≠ [])
    (hNumbers : ∀ n ∈ ns, n < 2 ^ 16) (hGap : p.gap = none)
    (hRoom : p.taken + ns.length < 8) :
    read (fuel + 1 + ns.length) p (colons ns ++ ':' :: ':' :: rest) =
      read fuel { reversed := ns.reverse ++ p.reversed
                  gap := some (ns.length + p.reversed.length) } rest := by
  induction ns generalizing p with
  | nil => exact absurd rfl hSome
  | cons n ns ih =>
    rw [List.forall_mem_cons] at hNumbers
    rw [List.length_cons] at hRoom
    by_cases hLast : ns = []
    · subst hLast
      rw [colons_singleton, List.length_singleton,
        read_next hNumbers.1 (by omega) (List.cons_ne_nil _ _),
        read_gap (p := p.push n) hGap (by rw [taken_push]; omega), Nat.add_comm 1]
      rfl
    · rw [colons_cons hLast, List.append_assoc, List.cons_append, List.length_cons, ← Nat.add_assoc,
        read_next hNumbers.1 (by omega) (List.append_ne_nil_of_left_ne_nil (colons_ne_nil hLast) _),
        ih (p := p.push n) hLast hNumbers.2 hGap (by rw [taken_push]; omega)]
      simp only [Progress.push, List.reverse_cons, List.append_assoc, List.singleton_append,
        List.length_cons, Nat.add_assoc, Nat.add_comm 1]

/-- Numbers start with their leading zeros. -/
theorem eq_zeros_append (ns : List Nat) :
    ns = List.replicate (leadingZeros ns) 0 ++ ns.drop (leadingZeros ns) := by
  induction ns with
  | nil => rfl
  | cons n ns ih =>
    rw [leadingZeros]
    by_cases hZero : n = 0
    · rw [List.takeWhile_cons_of_pos (by simpa using hZero), List.length_cons, List.replicate_succ,
        List.cons_append, List.drop_succ_cons, hZero]
      exact congrArg (0 :: ·) ih
    · rw [List.takeWhile_cons_of_neg (by simpa using hZero)]
      rfl

/-- A run of zeros is one. -/
theorem longestRun_spec (ns : List Nat) (before : Nat) :
    ∃ start, (longestRun before ns).1 = before + start ∧
      ns = ns.take start ++ List.replicate (longestRun before ns).2 0 ++
        ns.drop (start + (longestRun before ns).2) := by
  induction ns generalizing before with
  | nil => exact ⟨0, rfl, rfl⟩
  | cons n ns ih =>
    rw [longestRun]
    split_ifs with hHere
    · refine ⟨0, rfl, ?_⟩
      rw [List.take_zero, List.nil_append, Nat.zero_add]
      exact eq_zeros_append (n :: ns)
    · obtain ⟨start, hStart, hRun⟩ := ih (before + 1)
      refine ⟨start + 1, by rw [hStart]; omega, ?_⟩
      rw [Nat.add_right_comm, List.take_succ_cons, List.drop_succ_cons, List.cons_append,
        List.cons_append, ← hRun]

theorem mem_colons {ns : List Nat} {c : Char} (h : c ∈ colons ns) :
    c = ':' ∨ ∃ d < 16, c = Nat.digitChar d := by
  obtain h | ⟨part, hPart, hc⟩ := mem_intercalate h
  · exact .inl (List.mem_singleton.mp h)
  · obtain ⟨n, -, rfl⟩ := List.mem_map.mp hPart
    exact .inr (exists_digit_of_mem_ofNat hc)

theorem mem_text {ns : List Nat} {c : Char} (h : c ∈ (text ns).toList) :
    c = ':' ∨ ∃ d < 16, c = Nat.digitChar d := by
  rw [text, String.toList_ofList] at h
  split_ifs at h
  · exact mem_colons h
  · rw [List.mem_append, List.mem_cons, List.mem_cons] at h
    obtain h | h | h | h := h
    · exact mem_colons h
    · exact .inl h
    · exact .inl h
    · exact mem_colons h

/-- An address: eight numbers of 16 bits. -/
structure IsAddress (ns : List Nat) : Prop where
  length_eq : ns.length = 8
  lt : ∀ n ∈ ns, n < 2 ^ 16

theorem ofText?_ofNat {rest : List Char} (n : Nat) (h : rest ≠ []) :
    ofText? (Hex.ofNat n ++ rest) =
      (read ((Hex.ofNat n ++ rest).length + 1) {} (Hex.ofNat n ++ rest)).bind Progress.fill := by
  obtain ⟨c, cs, hChars, hColon⟩ := exists_ofNat_eq_cons n
  rw [hChars, List.cons_append, ofText?]
  · exact fun rest' hEq => hColon (List.cons.inj hEq).1
  · exact fun rest' hEq => hColon (List.cons.inj hEq).1
  · exact List.cons_ne_nil _ _
  · exact fun c' hEq => h (List.append_eq_nil_iff.mp (List.cons.inj hEq).2).2

/-- The gap is filled up with zeros. -/
theorem fill_gap {front back : List Nat} {zeros : Nat}
    (h : front.length + zeros + back.length = 8) :
    Progress.fill { reversed := back.reverse ++ front.reverse, gap := some front.length } =
      some (front ++ List.replicate zeros 0 ++ back) := by
  have hZeros : 8 - (front.length + back.length) = zeros := by omega
  simp only [Progress.fill, List.reverse_append, List.reverse_reverse, List.take_left,
    List.drop_left, List.length_append, hZeros]

/-- An address is read back without the zeros that are left out. -/
theorem ofText?_gap {front back : List Nat} {zeros : Nat}
    (hFront : ∀ n ∈ front, n < 2 ^ 16) (hBack : ∀ n ∈ back, n < 2 ^ 16) (hZeros : 2 ≤ zeros)
    (hLength : front.length + zeros + back.length = 8) :
    ofText? (colons front ++ ':' :: ':' :: colons back) =
      some (front ++ List.replicate zeros 0 ++ back) := by
  have hBackLength := length_le_colons back
  rw [← fill_gap hLength]
  by_cases hNone : front = []
  · subst hNone
    rw [List.length_nil] at hLength
    have hRead := read_colons (p := { gap := some 0 }) ((':' :: ':' :: colons back).length + 1) hBack
      (by simp only [Progress.taken, List.length_nil, Option.elim_some]; omega)
      (by simp only [List.length_cons]; omega)
    exact congrArg (·.bind Progress.fill) hRead
  · obtain ⟨n, ns, rfl⟩ := List.exists_cons_of_ne_nil hNone
    obtain ⟨more, hMore, -⟩ := exists_colons_eq n ns
    have hFrontLength := length_le_colons (n :: ns)
    have hText := ofText?_ofNat n (List.append_ne_nil_of_right_ne_nil more
      (List.cons_ne_nil ':' (':' :: colons back)))
    rw [← List.append_assoc, ← hMore] at hText
    rw [hText, List.length_append, List.length_cons, List.length_cons]
    obtain ⟨fuel, hFuel⟩ : ∃ fuel, (colons (n :: ns)).length + ((colons back).length + 1 + 1) + 1 =
        fuel + 1 + (n :: ns).length ∧ back.length < fuel :=
      ⟨(colons (n :: ns)).length + (colons back).length + 2 - (n :: ns).length, by omega, by omega⟩
    rw [hFuel.1, read_colons_gap hNone hFront rfl
        (by simp only [Progress.taken, List.length_nil, Option.elim_none]; omega),
      read_colons fuel hBack _ hFuel.2]
    · rw [List.append_nil]
      rfl
    · simp only [Progress.taken, List.length_append, List.length_reverse, List.length_nil,
        Option.elim_some]
      omega

/-- An address is read from its text. -/
theorem ofText?_text {ns : List Nat} (h : IsAddress ns) : ofText? (text ns).toList = some ns := by
  obtain ⟨start, hStart, hRun⟩ := longestRun_spec ns 0
  rw [Nat.zero_add] at hStart
  rw [text, String.toList_ofList]
  generalize longestRun 0 ns = run at *
  obtain ⟨first, zeros⟩ := run
  obtain rfl : first = start := hStart
  dsimp only at hRun ⊢
  -- A run is left out only if it has two zeros or more.
  split_ifs with hShort
  · obtain ⟨n, tail, rfl⟩ := List.exists_cons_of_length_pos (l := ns) (by rw [h.length_eq]; decide)
    have hTail : tail ≠ [] := by
      rintro rfl
      simpa using h.length_eq
    obtain ⟨more, hMore, hSome⟩ := exists_colons_eq n tail
    have hText := ofText?_ofNat n (hSome hTail)
    have hEnough := length_le_colons (n :: tail)
    rw [← hMore, read_colons _ h.lt (by rw [h.length_eq]; decide) (by omega)] at hText
    rw [hText, Option.bind_some, Progress.fill]
    dsimp only
    rw [List.append_nil, List.reverse_reverse, if_pos h.length_eq]
  · have hLength := congrArg List.length hRun
    rw [h.length_eq, List.length_append, List.length_append, List.length_replicate] at hLength
    rw [ofText?_gap (fun n hn => h.lt n (List.mem_of_mem_take hn))
      (fun n hn => h.lt n (List.mem_of_mem_drop hn)) (Nat.le_of_not_lt hShort) hLength.symm,
      ← hRun]

/-- What a reader may hold. -/
structure Progress.Fits (p : Progress) : Prop where
  taken_le : p.taken ≤ 8
  lt : ∀ n ∈ p.reversed, n < 2 ^ 16

theorem Progress.Fits.push (hp : p.Fits) (hRoom : p.taken < 8) (hNumber : n < 2 ^ 16) :
    (p.push n).Fits :=
  ⟨by rw [taken_push]; omega, List.forall_mem_cons.mpr ⟨hNumber, hp.lt⟩⟩

theorem readDigits_lt (m width : Nat) (cs : List Char) :
    (readDigits m width cs).1 < (m + 1) * 16 ^ width := by
  have hSelf (m width : Nat) : m < (m + 1) * 16 ^ width :=
    Nat.lt_of_lt_of_le (Nat.lt_succ_self m) (Nat.le_mul_of_pos_right _ (Nat.pow_pos (by decide)))
  fun_induction readDigits m width cs with
  | case1 m cs => exact hSelf m 0
  | case2 width m => exact hSelf m _
  | case3 m width c cs d hDigit ih =>
    have hSmall := Hex.digit?_lt hDigit
    calc (readDigits (m * 16 + d) width cs).1 < (m * 16 + d + 1) * 16 ^ width := ih
      _ ≤ ((m + 1) * 16) * 16 ^ width := Nat.mul_le_mul_right _ (by omega)
      _ = (m + 1) * 16 ^ (width + 1) := by rw [Nat.pow_succ, Nat.mul_assoc, Nat.mul_comm 16]
  | case4 m width => exact hSelf m _

theorem octet?_lt {cs : List Char} {n : Nat} (h : octet? cs = some n) : n < 256 := by
  unfold octet? at h
  split at h
  · obtain rfl := Option.some.inj h
    decide
  · split_ifs at h with hShape
    obtain ⟨hFits, hNumber⟩ := Option.ite_none_right_eq_some.mp h
    exact Option.some.inj hNumber ▸ Nat.lt_succ_of_le hFits
  · cases h

theorem tail?_lt {cs : List Char} {a b : Nat} (h : tail? cs = some (a, b)) :
    a < 2 ^ 16 ∧ b < 2 ^ 16 := by
  unfold tail? at h
  split at h
  · next a₁ a₂ b₁ b₂ hOctets =>
    have hParts := mapM_eq_some.mp hOctets
    have hLt (n : Nat) (hn : n ∈ [a₁, a₂, b₁, b₂]) : n < 256 := by
      obtain ⟨part, -, hPart⟩ := exists_left_of_mem hParts hn
      exact octet?_lt hPart
    obtain ⟨rfl, rfl⟩ := Prod.mk.inj (Option.some.inj h)
    have h₁ := hLt a₁ (by simp)
    have h₂ := hLt a₂ (by simp)
    have h₃ := hLt b₁ (by simp)
    have h₄ := hLt b₂ (by simp)
    omega
  · cases h

/-- Reading takes in no more numbers than fit, and none that is too large. -/
theorem Progress.Fits.of_read {cs : List Char} (hp : p.Fits) (h : read fuel p cs = some q) :
    q.Fits := by
  fun_induction read fuel p cs with
  | case1 | case3 | case4 => cases h
  | case2 => exact Option.some.inj h ▸ hp
  | case5 p fuel hRoom rest hGap _ ih =>
    refine ih ⟨?_, hp.lt⟩ h
    simp only [Progress.taken, Option.elim_some]
    omega
  | case6 p fuel cs _ hRoom n tail _ hDigits hNone =>
    rw [hDigits] at h
    exact absurd (h.symm.trans (if_pos hNone)) (Option.some_ne_none q)
  | case7 p fuel cs _ hRoom n tail _ hDigits hTail =>
    rw [hDigits] at h
    obtain ⟨⟨a, b⟩, hNumbers, hPair⟩ := Option.bind_eq_some_iff.mp ((if_neg hTail).symm.trans h)
    obtain ⟨ha, hb⟩ := tail?_lt hNumbers
    rw [Bool.or_eq_true, decide_eq_true_eq, decide_eq_true_eq, not_or] at hTail
    have hPlaces : p.taken ≤ 6 := Nat.le_of_not_lt hTail.2
    rw [← Option.some.inj hPair]
    exact (hp.push (by omega) ha).push (by rw [taken_push]; omega) hb
  | case8 p fuel cs _ hRoom n more hNone _ hDigits =>
    rw [hDigits] at h
    exact absurd (h.symm.trans (if_pos hNone)) (Option.some_ne_none q)
  | case9 p fuel cs _ hRoom n more hMore _ hDigits ih =>
    have hNumber := readDigits_lt 0 4 cs
    rw [hDigits] at h hNumber
    exact ih (hp.push (Nat.lt_of_not_le hRoom) hNumber) ((if_neg hMore).symm.trans h)
  | case10 p fuel cs _ hRoom n _ hDigits =>
    have hNumber := readDigits_lt 0 4 cs
    rw [hDigits] at h hNumber
    rw [← Option.some.inj h]
    exact hp.push (Nat.lt_of_not_le hRoom) hNumber
  | case11 p fuel cs _ hRoom n rest hDigits _ hPoint hColon hEnd =>
    rw [hDigits] at h
    dsimp only at h
    split at h
    · exact absurd rfl (hPoint _)
    · exact absurd rfl (hColon _)
    · exact absurd rfl hEnd
    · cases h

theorem Progress.Fits.of_fill {ns : List Nat} (hp : p.Fits) (h : p.fill = some ns) :
    IsAddress ns := by
  have hTaken := hp.taken_le
  have hNumbers : ∀ n ∈ p.reversed.reverse, n < 2 ^ 16 :=
    fun n hn => hp.lt n (List.mem_reverse.mp hn)
  rw [Progress.taken] at hTaken
  rw [Progress.fill] at h
  split at h
  · next k hGap =>
    rw [hGap, Option.elim_some] at hTaken
    obtain rfl := Option.some.inj h
    refine ⟨?_, ?_⟩
    · simp only [List.length_append, List.length_take, List.length_drop, List.length_replicate,
        List.length_reverse]
      omega
    · simp only [List.forall_mem_append]
      refine ⟨⟨fun n hn => hNumbers n (List.mem_of_mem_take hn), fun n hn => ?_⟩,
        fun n hn => hNumbers n (List.mem_of_mem_drop hn)⟩
      rw [List.eq_of_mem_replicate hn]
      decide
  · split_ifs at h with hLength
    obtain rfl := Option.some.inj h
    exact ⟨hLength, hNumbers⟩

/-- Whatever is read is an address. -/
theorem isAddress_of_ofText? {cs : List Char} {ns : List Nat} (h : ofText? cs = some ns) :
    IsAddress ns := by
  unfold ofText? at h
  split at h
  · obtain ⟨p, hRead, hFill⟩ := Option.bind_eq_some_iff.mp h
    exact (Progress.Fits.of_read ⟨by decide, by simp⟩ hRead).of_fill hFill
  · cases h
  · cases h
  · cases h
  · obtain ⟨p, hRead, hFill⟩ := Option.bind_eq_some_iff.mp h
    exact (Progress.Fits.of_read ⟨by decide, by simp⟩ hRead).of_fill hFill

end Ipv6

end RemoteSigning.Url
