import RemoteSigning.Proofs.Text.Utf8
import RemoteSigning.Url.Punycode
import Mathlib.Data.List.Sort
import Mathlib.Tactic.Ring

/-!
# Punycode is read back

The writer passes over a label once for every code point and counts the places at which a character
does not stand. A reader that has read what is written so far holds the characters that have been
passed, and the place at which it stands and the distance that the writer has counted since make up
the place of the writer.
-/

namespace RemoteSigning.Url.Punycode

open Text

theorem value?_digit : ∀ n < 36, value? (digit n) = some n := by decide

theorem digit_ne_hyphen : ∀ n < 36, digit n ≠ '-' := by decide

theorem threshold_le (position bias : Nat) : threshold position bias ≤ 26 :=
  Nat.max_le.mpr ⟨by omega, Nat.min_le_left ..⟩

/-- A distance is written in digits. -/
theorem exists_digit_of_mem_writeDistance {bias position distance : Nat} {c : Char}
    (h : c ∈ writeDistance bias position distance) : ∃ n < 36, c = digit n := by
  fun_induction writeDistance bias position distance with
  | case1 position distance t hLast =>
    have := threshold_le position bias
    exact ⟨distance, by omega, List.mem_singleton.mp h⟩
  | case2 position distance t hMore ih =>
    have hUpper : t ≤ 26 := threshold_le position bias
    obtain rfl | h := List.mem_cons.mp h
    · have := Nat.mod_lt (distance - t) (show 0 < 36 - t by omega)
      exact ⟨_, by omega, rfl⟩
    · exact ih h

/-- A distance is read back as the digits weigh it, whatever follows. -/
theorem readDistance_writeDistance (bias position distance weight start : Nat) (rest : List Char) :
    readDistance bias position weight start (writeDistance bias position distance ++ rest) =
      some (start + distance * weight, rest) := by
  fun_induction writeDistance bias position distance generalizing weight start with
  | case1 position distance t hLast =>
    have hUpper : t ≤ 26 := threshold_le position bias
    rw [List.singleton_append, readDistance, value?_digit _ (by omega)]
    exact if_pos hLast
  | case2 position distance t hMore ih =>
    have hUpper : t ≤ 26 := threshold_le position bias
    have hDigit := Nat.mod_lt (distance - t) (show 0 < 36 - t by omega)
    have hParts := Nat.div_add_mod (distance - t) (36 - t)
    have hTotal : start + (t + (distance - t) % (36 - t)) * weight
        + (distance - t) / (36 - t) * (weight * (36 - t)) = start + distance * weight := by
      have hDistance : distance
          = t + (distance - t) % (36 - t) + (36 - t) * ((distance - t) / (36 - t)) := by
        omega
      generalize (distance - t) / (36 - t) = more at *
      generalize (distance - t) % (36 - t) = last at *
      rw [hDistance]
      ring
    rw [List.cons_append, readDistance, value?_digit _ (by omega)]
    refine (if_neg (Nat.not_lt.mpr (Nat.le_add_right ..))).trans ?_
    rw [ih, hTotal]

/-- Where a reader stands. -/
structure Reading where
  point : Nat := 128
  place : Nat := 0
  bias : Nat := 72
  first : Bool := true
  label : List Char

/-- What a reader makes of the rest. -/
def Reading.finish (most : Nat) (r : Reading) (digits : List Char) : Option (List Char) :=
  readAll most r.point r.place r.bias r.first r.label digits

/-- Whether a reader comes from one place to another one through digits, whatever follows them. -/
def Leads (r : Reading) (digits : List Char) (r' : Reading) : Prop :=
  ∀ rest most, (digits ++ rest).length ≤ most →
    ∃ most', rest.length ≤ most' ∧ r.finish most (digits ++ rest) = r'.finish most' rest

theorem Leads.refl (r : Reading) : Leads r [] r :=
  fun _ most h => ⟨most, h, rfl⟩

/-- Reading goes on where it was left. -/
theorem Leads.trans {r r' r'' : Reading} {digits digits' : List Char} (h : Leads r digits r')
    (h' : Leads r' digits' r'') : Leads r (digits ++ digits') r'' := by
  intro rest most hMost
  rw [List.append_assoc] at hMost
  obtain ⟨most', hMost', hFirst⟩ := h (digits' ++ rest) most hMost
  obtain ⟨most'', hMost'', hSecond⟩ := h' rest most' hMost'
  exact ⟨most'', hMost'', by rw [List.append_assoc, hFirst, hSecond]⟩

/-- At the end the label is what has been read. -/
theorem Leads.finish_eq {r r' : Reading} {digits : List Char} (h : Leads r digits r') :
    r.finish digits.length digits = some r'.label := by
  obtain ⟨most, -, hRead⟩ := h [] digits.length (by rw [List.append_nil])
  rw [List.append_nil] at hRead
  rw [hRead, Reading.finish, readAll]

theorem character?_toNat (c : Char) : character? c.toNat = some c := by
  rw [character?, if_pos (show c.toNat.isValidChar from c.valid), Char.ofNat_toNat]

theorem writeDistance_ne_nil (bias position distance : Nat) :
    writeDistance bias position distance ≠ [] := by
  rw [writeDistance]
  split <;> exact List.cons_ne_nil _ _

/-- A distance to the place `k` among the characters puts its character there. -/
theorem leads_writeDistance {r : Reading} {distance k : Nat} {c : Char} (hPlace : k ≤ r.label.length)
    (hTotal : distance + (r.point * (r.label.length + 1) + r.place) =
      c.toNat * (r.label.length + 1) + k) :
    Leads r (writeDistance r.bias 36 distance)
      { point := c.toNat
        place := k + 1
        bias := adapt distance (r.label.length + 1) r.first
        first := false
        label := r.label.take k ++ c :: r.label.drop k } := by
  intro rest most hMost
  -- The distance goes once over `length + 1` places for every code point in between.
  have hPoint : r.point ≤ c.toNat := by
    by_contra hBeyond
    have := Nat.mul_le_mul_right (r.label.length + 1) (show c.toNat + 1 ≤ r.point by omega)
    rw [Nat.add_mul] at this
    omega
  obtain ⟨gap, hGap⟩ := Nat.exists_eq_add_of_le hPoint
  have hOffset : r.place + distance = k + (r.label.length + 1) * gap := by
    rw [hGap, Nat.add_mul, Nat.mul_comm gap] at hTotal
    omega
  have hDiv : r.point + (r.place + distance) / (r.label.length + 1) = c.toNat := by
    rw [hOffset, Nat.add_mul_div_left _ _ (by omega), Nat.div_eq_of_lt (by omega), hGap,
      Nat.zero_add]
  have hMod : (r.place + distance) % (r.label.length + 1) = k := by
    rw [hOffset, Nat.add_mul_mod_self_left, Nat.mod_eq_of_lt (by omega)]
  have hDistance := readDistance_writeDistance r.bias 36 distance 1 0 rest
  obtain ⟨d, ds, hDigits⟩ := List.exists_cons_of_ne_nil (writeDistance_ne_nil r.bias 36 distance)
  rw [hDigits, List.cons_append] at hDistance hMost
  rw [hDigits, List.cons_append]
  cases most with
  | zero => exact absurd hMost (by simp only [List.length_cons]; omega)
  | succ most =>
    refine ⟨most, ?_, ?_⟩
    · rw [List.length_cons, List.length_append] at hMost
      omega
    · simp only [Reading.finish, readAll, hDistance, Option.bind_eq_bind, Option.bind_some,
        Nat.zero_add, Nat.mul_one, hDiv, hMod, character?_toNat]

/-- A reader that stands where a writer does. On its way to `point` the writer has passed some
characters of the label, and others are ahead. -/
structure Abreast (first point : Nat) (passed ahead : List Char) (w : Writing) (r : Reading) :
    Prop where
  label_eq : r.label = passed.filter (·.toNat ≤ point) ++ ahead.filter (·.toNat < point)
  count_eq : w.count = r.label.length
  bias_eq : w.bias = r.bias
  first_le : first ≤ w.count
  first_eq : (w.count == first) = r.first
  place_eq : w.distance + (r.point * (w.count + 1) + r.place) =
    point * (w.count + 1) + (passed.filter (·.toNat ≤ point)).length

/-- Whether a reader of what has been written after `start` stands where the writer does. -/
def Followed (start : List Char) (r₀ : Reading) (first point : Nat) (passed ahead : List Char)
    (w : Writing) : Prop :=
  ∃ digits r, w.text = start ++ digits ∧ (∀ c ∈ digits, ∃ n < 36, c = digit n) ∧
    Leads r₀ digits r ∧ Abreast first point passed ahead w r

variable {start : List Char} {r₀ : Reading} {first point : Nat} {passed ahead : List Char}
  {w : Writing} {c : Char}

/-- Nothing changes for the reader when the writer only moves. -/
theorem Followed.move (h : Followed start r₀ first point passed ahead w) {point' : Nat}
    {passed' ahead' : List Char} {distance : Nat}
    (hLabel : passed'.filter (·.toNat ≤ point') ++ ahead'.filter (·.toNat < point') =
      passed.filter (·.toNat ≤ point) ++ ahead.filter (·.toNat < point))
    (hPlace : distance + (point * (w.count + 1) + (passed.filter (·.toNat ≤ point)).length) =
      w.distance + (point' * (w.count + 1) + (passed'.filter (·.toNat ≤ point')).length)) :
    Followed start r₀ first point' passed' ahead' { w with distance } := by
  obtain ⟨digits, r, hText, hDigits, hLeads, hAbreast⟩ := h
  refine ⟨digits, r, hText, hDigits, hLeads, ?_⟩
  exact {
    label_eq := hAbreast.label_eq.trans hLabel.symm
    count_eq := hAbreast.count_eq
    bias_eq := hAbreast.bias_eq
    first_le := hAbreast.first_le
    first_eq := hAbreast.first_eq
    place_eq := by
      have := hAbreast.place_eq
      dsimp only
      omega }

/-- The distance to the character that is put into place is written. -/
theorem Followed.put (h : Followed start r₀ first c.toNat passed (c :: ahead) w) :
    Followed start r₀ first c.toNat (passed ++ [c]) ahead
      { distance := 0
        bias := adapt w.distance (w.count + 1) (w.count == first)
        count := w.count + 1
        text := w.text ++ writeDistance w.bias 36 w.distance } := by
  obtain ⟨digits, r, hText, hDigits, hLeads, hAbreast⟩ := h
  obtain ⟨hLabel, hCount, hBias, hFirstLe, hFirst, hPlace⟩ := hAbreast
  have hBefore : (passed.filter (·.toNat ≤ c.toNat)).length ≤ r.label.length := by
    rw [hLabel, List.length_append]
    omega
  rw [hCount] at hPlace
  have hStep := leads_writeDistance (c := c) hBefore hPlace
  rw [← hBias, ← hCount, ← hFirst] at hStep
  refine ⟨_, _, by rw [hText, List.append_assoc], ?_, hLeads.trans hStep, ?_⟩
  · intro x hx
    obtain hx | hx := List.mem_append.mp hx
    · exact hDigits x hx
    · exact exists_digit_of_mem_writeDistance hx
  · have hAhead : (c :: ahead).filter (·.toNat < c.toNat) = ahead.filter (·.toNat < c.toNat) := by
      rw [List.filter_cons_of_neg (by simp)]
    have hPassed : (passed ++ [c]).filter (·.toNat ≤ c.toNat) =
        passed.filter (·.toNat ≤ c.toNat) ++ [c] := by
      rw [List.filter_append, List.filter_cons_of_pos (by simp), List.filter_nil]
    have hNew : r.label.take (passed.filter (·.toNat ≤ c.toNat)).length ++
        c :: r.label.drop (passed.filter (·.toNat ≤ c.toNat)).length =
        (passed ++ [c]).filter (·.toNat ≤ c.toNat) ++ ahead.filter (·.toNat < c.toNat) := by
      rw [hLabel, List.take_left, List.drop_left, hAhead, hPassed, List.append_assoc,
        List.singleton_append]
    exact {
      label_eq := hNew
      count_eq := by
        simp only [List.length_append, List.length_cons, List.length_take, List.length_drop]
        omega
      bias_eq := rfl
      first_le := Nat.le_succ_of_le hFirstLe
      first_eq := by
        rw [beq_eq_false_iff_ne]
        exact Nat.ne_of_gt (Nat.lt_succ_of_le hFirstLe)
      place_eq := by
        rw [hPassed, List.length_append, List.length_singleton, Nat.zero_add] }

/-- One more character is written so that reading follows. -/
theorem Followed.pass (h : Followed start r₀ first point passed (c :: ahead) w) :
    Followed start r₀ first point (passed ++ [c]) ahead (w.pass first point c) := by
  rw [Writing.pass]
  split_ifs with hBelow hHere
  · refine h.move ?_ ?_
    · rw [List.filter_append, List.filter_cons_of_pos (by simpa using Nat.le_of_lt hBelow),
        List.filter_nil, List.append_assoc, List.singleton_append,
        List.filter_cons_of_pos (by simpa using hBelow)]
    · rw [List.filter_append, List.filter_cons_of_pos (by simpa using Nat.le_of_lt hBelow),
        List.filter_nil, List.length_append, List.length_singleton]
      omega
  · subst hHere
    exact h.put
  · have hAbove : ¬ c.toNat ≤ point := by omega
    refine h.move ?_ ?_ <;>
      rw [List.filter_append, List.filter_cons_of_neg (by simpa using hAbove), List.filter_nil,
        List.append_nil]
    rw [List.filter_cons_of_neg (by simpa using Nat.le_of_not_lt hBelow)]

/-- By induction on what is ahead: so are all. -/
theorem Followed.foldl (h : Followed start r₀ first point passed ahead w) :
    Followed start r₀ first point (passed ++ ahead) [] (ahead.foldl (Writing.pass first point) w) := by
  induction ahead generalizing passed w with
  | nil => rwa [List.append_nil]
  | cons c ahead ih =>
    have hRest := ih h.pass
    rwa [List.append_assoc, List.singleton_append] at hRest

/-- One pass over the label, for the next code point that occurs in it. -/
theorem Followed.round {label : List Char} {next : Nat} (h : Followed start r₀ first next [] label w)
    (hNext : next ≤ point) (hNone : ∀ c ∈ label, c.toNat < point → c.toNat < next) :
    Followed start r₀ first (point + 1) [] label
      (let w := { w with distance := w.distance + (point - next) * (w.count + 1) }
       let w := label.foldl (Writing.pass first point) w
       { w with distance := w.distance + 1 }) := by
  -- No character of the label lies between, so nothing is written on the way to `point`.
  have hBelow : label.filter (·.toNat < point) = label.filter (·.toNat < next) :=
    List.filter_congr fun c hc => by
      have := hNone c hc
      simp only [decide_eq_decide]
      omega
  have hReached : Followed start r₀ first point [] label
      { w with distance := w.distance + (point - next) * (w.count + 1) } := by
    refine h.move ?_ ?_
    · rw [List.filter_nil, List.filter_nil, hBelow]
    · have hGap : point * (w.count + 1) = (point - next) * (w.count + 1) + next * (w.count + 1) := by
        rw [← Nat.add_mul, Nat.sub_add_cancel hNext]
      rw [List.filter_nil, List.filter_nil, hGap]
      omega
  have hPassed := hReached.foldl
  rw [List.nil_append] at hPassed
  have hCount : (label.filter (·.toNat ≤ point)).length =
      (label.foldl (Writing.pass first point)
        { w with distance := w.distance + (point - next) * (w.count + 1) }).count := by
    obtain ⟨_, r, _, _, _, hAbreast⟩ := hPassed
    rw [hAbreast.count_eq, hAbreast.label_eq, List.filter_nil, List.append_nil]
  refine hPassed.move ?_ ?_
  · simp only [List.filter_nil, List.nil_append, List.append_nil, Nat.lt_succ_iff]
  · rw [hCount, List.filter_nil, List.length_nil, Nat.add_mul]
    omega

/-- A writer that has gone over all code points is followed by a reader of the whole label. -/
theorem Followed.writeAll {label : List Char} {points : List Nat} {next : Nat}
    (h : Followed start r₀ first next [] label w) (hAscending : points.Pairwise (· < ·))
    (hNext : ∀ n ∈ points, next ≤ n)
    (hAll : ∀ c ∈ label, next ≤ c.toNat → c.toNat ∈ points) :
    ∃ digits r, (writeAll label first next w points).text = start ++ digits ∧
      (∀ c ∈ digits, ∃ n < 36, c = digit n) ∧ Leads r₀ digits r ∧ r.label = label := by
  induction points generalizing next w with
  | nil =>
    obtain ⟨digits, r, hText, hDigits, hLeads, hAbreast⟩ := h
    refine ⟨digits, r, hText, hDigits, hLeads, ?_⟩
    rw [hAbreast.label_eq, List.filter_nil, List.nil_append, List.filter_eq_self]
    intro c hc
    by_contra hBeyond
    exact List.not_mem_nil (hAll c hc (by simpa using hBeyond))
  | cons point points ih =>
    rw [List.pairwise_cons] at hAscending
    have hPoint := hNext point List.mem_cons_self
    have hRound := h.round hPoint fun c hc hLess => by
      by_contra hFrom
      obtain hHere | hLater := List.mem_cons.mp (hAll c hc (Nat.le_of_not_lt hFrom))
      · omega
      · have := hAscending.1 _ hLater
        omega
    refine ih hRound hAscending.2 hAscending.1 fun c hc hBeyond => ?_
    obtain hHere | hLater := List.mem_cons.mp (hAll c hc (by omega))
    · omega
    · exact hLater

/-- Each of the numbers that ascend, once. -/
theorem pairwise_eraseDups : ∀ {ns : List Nat}, ns.Pairwise (· ≤ ·) → ns.eraseDups.Pairwise (· < ·)
  | [], _ => by
    rw [List.eraseDups_nil]
    exact List.Pairwise.nil
  | n :: ns, h => by
    rw [List.pairwise_cons] at h
    have hShorter := List.length_filter_le (fun m => !m == n) ns
    rw [List.eraseDups_cons, List.pairwise_cons]
    refine ⟨fun m hm => ?_, pairwise_eraseDups (h.2.filter _)⟩
    rw [List.mem_eraseDups, List.mem_filter, Bool.not_eq_true', beq_eq_false_iff_ne] at hm
    exact Nat.lt_of_le_of_ne (h.1 m hm.1) (Ne.symm hm.2)
termination_by ns => ns.length

/-- The characters in front of the digits, with the sign that ends them. -/
def startOf (label : List Char) : List Char :=
  if (label.filter isAscii).isEmpty then [] else label.filter isAscii ++ ['-']

/-- What is written leads a reader from the ASCII characters of a label to the label. -/
theorem exists_encode_eq (label : List Char) :
    ∃ digits r, encode label = startOf label ++ digits ∧ (∀ c ∈ digits, ∃ n < 36, c = digit n) ∧
      Leads { label := label.filter isAscii } digits r ∧ r.label = label := by
  have hStart : Followed (startOf label) { label := label.filter isAscii }
      (label.filter isAscii).length 128 [] label
      { count := (label.filter isAscii).length, text := startOf label } := by
    refine ⟨[], _, (List.append_nil _).symm, by simp, .refl _, ?_⟩
    exact {
      label_eq := rfl
      count_eq := rfl
      bias_eq := rfl
      first_le := Nat.le_refl _
      first_eq := beq_self_eq_true _
      place_eq := by
        dsimp only
        rw [List.filter_nil, List.length_nil]
        omega }
  have hOrder := List.pairwise_mergeSort' (· ≤ ·) ((label.filter (!isAscii ·)).map Char.toNat)
  refine hStart.writeAll (pairwise_eraseDups hOrder) ?_ ?_
  · intro n hn
    rw [List.mem_eraseDups, List.mem_mergeSort, List.mem_map] at hn
    obtain ⟨c, hc, rfl⟩ := hn
    simpa [isAscii] using (List.mem_filter.mp hc).2
  · intro c hc hBeyond
    rw [List.mem_eraseDups, List.mem_mergeSort]
    exact List.mem_map_of_mem (List.mem_filter.mpr ⟨hc, by simpa [isAscii] using hBeyond⟩)

theorem reverse_startOf (label : List Char) :
    ((startOf label).reverse.dropWhile (· != '-')).drop 1 = (label.filter isAscii).reverse ∧
      (startOf label).reverse.takeWhile (· != '-') = [] := by
  rw [startOf]
  split_ifs with hNone
  · rw [List.isEmpty_iff.mp hNone]
    exact ⟨rfl, rfl⟩
  · rw [List.reverse_append, List.reverse_singleton, List.singleton_append]
    exact ⟨rfl, rfl⟩

/-- Every label is read back from its ASCII form. -/
theorem decode?_encode (label : List Char) : decode? (encode label) = some label := by
  obtain ⟨digits, r, hText, hDigits, hLeads, hLabel⟩ := exists_encode_eq label
  have hPlain : ∀ c ∈ digits.reverse, (c != '-') = true := by
    intro c hc
    obtain ⟨n, hn, rfl⟩ := hDigits c (List.mem_reverse.mp hc)
    exact bne_iff_ne.mpr (digit_ne_hyphen n hn)
  obtain ⟨hAscii, hNone⟩ := reverse_startOf label
  have hRead := hLeads.finish_eq
  rw [hLabel] at hRead
  rw [decode?, hText, List.reverse_append, List.dropWhile_append_of_pos hPlain,
    List.takeWhile_append_of_pos hPlain, hAscii, hNone, List.append_nil, List.reverse_reverse,
    List.reverse_reverse]
  exact hRead

/-- What is written consists of plain characters, hyphens and digits. -/
theorem mem_encode {label : List Char} {c : Char} (h : c ∈ encode label) :
    c ∈ label ∧ isAscii c ∨ c = '-' ∨ ∃ n < 36, c = digit n := by
  obtain ⟨digits, -, hText, hDigits, -, -⟩ := exists_encode_eq label
  rw [hText, List.mem_append, startOf] at h
  obtain h | h := h
  · split_ifs at h
    · cases h
    · rw [List.mem_append, List.mem_filter, List.mem_singleton] at h
      exact h.imp_right .inl
  · exact .inr (.inr (hDigits c h))

end RemoteSigning.Url.Punycode
