import RemoteSigning.Proofs.Lists
import RemoteSigning.Proofs.Url.Escapes
import RemoteSigning.Url.Parse

/-!
# Paths are read back

The segments that are kept of a path stand for no directory, and escaping turns none into one that
does. So a path that is read from what a path is written as has the same segments.
-/

namespace RemoteSigning.Url

open Text Items
open Percent (inPath)

variable {names : List String} {name : String} {segment : List Char} {c : Char}

/-- What stands for the directory itself or the one above, in lower case. -/
def dotForms : List (List Char) :=
  [".", "%2e"].map String.toList ++ ["..", ".%2e", "%2e.", "%2e%2e"].map String.toList

/-- Whether a segment stands for a directory. -/
def IsDots (segment : List Char) : Prop := isSingleDot segment = true ∨ isDoubleDot segment = true

theorem isDots_iff : IsDots segment ↔ segment.map Char.toLower ∈ dotForms := by
  have hForm (forms : List String) (cs : List Char) :
      forms.contains (String.ofList cs) = true ↔ cs ∈ forms.map String.toList := by
    rw [List.contains_iff_mem, List.mem_map]
    constructor
    · exact fun h => ⟨_, h, String.toList_ofList⟩
    · rintro ⟨form, hMem, rfl⟩
      rwa [String.ofList_toList]
  rw [IsDots, isSingleDot, isDoubleDot, hForm, hForm, dotForms, List.mem_append]

/-- The only octet that is escaped in them is the point. -/
theorem of_mem_dotForms : ∀ form ∈ dotForms, ∀ i < 6, form[i]? = some '%' →
    form[i + 1]? = some '2' ∧ form[i + 2]? = some 'e' := by
  decide

theorem length_le_of_mem_dotForms : ∀ form ∈ dotForms, form.length ≤ 6 := by decide

theorem upperDigit_toLower : ∀ n < 16, ((Hex.upperDigit n).toLower = '2' → n = 2) ∧
    ((Hex.upperDigit n).toLower = 'e' → n = 14) := by
  decide

/-- Nothing but what stands for a directory is written as such. -/
theorem isDots_of_encode (h : IsDots (Percent.encode inPath segment)) : IsDots segment := by
  rw [isDots_iff] at h
  -- An escape in such a form can only be that of the point, and a path does not escape the point.
  have hKeeps : ∀ b ∈ segment.flatMap charOctets, inPath.escapes b = false := by
    intro b hb
    by_contra hEscaped
    rw [Bool.not_eq_false] at hEscaped
    obtain ⟨before, after, hOctets⟩ := List.append_of_mem hb
    have hText : Percent.encode inPath segment = Percent.encodeOctets inPath before ++
        '%' :: Hex.upperDigit (b.toNat / 16) :: Hex.upperDigit (b.toNat % 16) ::
          Percent.encodeOctets inPath after := by
      rw [Percent.encode, hOctets, Percent.encodeOctets, List.flatMap_append, List.flatMap_cons,
        Percent.encodeOctet, if_pos hEscaped]
      rfl
    rw [hText, List.map_append, List.map_cons, List.map_cons, List.map_cons] at h
    generalize (Percent.encodeOctets inPath before).map Char.toLower = front at h
    have hSize := b.toNat_lt
    have hLength := length_le_of_mem_dotForms _ h
    rw [List.length_append, List.length_cons] at hLength
    have hDigits := of_mem_dotForms _ h front.length (by omega) (by simp)
    simp only [List.getElem?_append_right (Nat.le_add_right _ _), Nat.add_sub_cancel_left,
      List.getElem?_cons_succ, List.getElem?_cons_zero, Option.some.injEq] at hDigits
    have hHigh := (upperDigit_toLower (b.toNat / 16) (by omega)).1 hDigits.1
    have hLow := (upperDigit_toLower (b.toNat % 16) (by omega)).2 hDigits.2
    obtain rfl : b = 0x2E := UInt8.toNat_inj.mp (show b.toNat = 46 by omega)
    exact absurd hEscaped (by decide)
  rwa [Percent.encode_of_keeps fun c hc b hb => hKeeps b (List.mem_flatMap.mpr ⟨c, hc, hb⟩),
    ← isDots_iff] at h

/-- A segment as it is kept: it is written as it stands, in one piece, and stands for itself. -/
structure IsSegment (name : String) : Prop where
  keeps : ∀ c ∈ name.toList, inPath.Keeps c
  whole : ∀ c ∈ name.toList, isSlash .special c = false
  plain : ¬ IsDots name.toList

theorem isSegment_empty : IsSegment "" :=
  ⟨by simp, by simp, by rw [isDots_iff]; decide⟩

theorem isSlash_of_mem_signs : ∀ c ∈ Percent.signs, isSlash .special c = false := by decide

/-- A whole part of a path that is no dots is a segment when it is escaped. -/
theorem isSegment_encode (hWhole : ∀ c ∈ segment, isSlash .special c = false)
    (hPlain : ¬ IsDots segment) : IsSegment (String.ofList (Percent.encode inPath segment)) := by
  refine ⟨?_, ?_, ?_⟩ <;> rw [String.toList_ofList]
  · exact fun c => Percent.keeps_of_mem_encode Percent.keeps_signs_inPath
  · intro c hc
    exact (Percent.mem_encode hc).elim (isSlash_of_mem_signs c) fun h => hWhole c h.1
  · exact fun h => hPlain (isDots_of_encode h)

theorem segmentText_special (names : List String) (segment : List Char) :
    segmentText .special names segment = String.ofList (Percent.encode inPath segment) :=
  if_neg fun h => SchemeKind.noConfusion h.1

/-- A segment is read as itself. -/
theorem IsSegment.segmentText_eq (h : IsSegment name) (names : List String) :
    segmentText .special names name.toList = name := by
  rw [segmentText_special, Percent.encode_of_keeps h.keeps, String.ofList_toList]

/-- The path of a URL that has to have one. -/
structure IsPath (names : List String) : Prop where
  nonempty : names ≠ []
  segments : ∀ name ∈ names, IsSegment name

theorem segments_appendInner (hNames : ∀ name ∈ names, IsSegment name)
    (hWhole : ∀ c ∈ segment, isSlash .special c = false) :
    ∀ name ∈ appendInner .special names segment, IsSegment name := by
  rw [appendInner, segmentText_special]
  split_ifs with hDouble hSingle
  · exact fun name h => hNames name (List.dropLast_subset _ h)
  · exact hNames
  · rw [List.forall_mem_append, List.forall_mem_singleton]
    exact ⟨hNames, isSegment_encode hWhole (not_or.mpr ⟨hSingle, hDouble⟩)⟩

theorem isPath_appendLast (hNames : ∀ name ∈ names, IsSegment name)
    (hWhole : ∀ c ∈ segment, isSlash .special c = false) :
    IsPath (appendLast .special names segment) := by
  rw [appendLast, segmentText_special]
  split_ifs with hDouble hSingle <;>
    refine ⟨List.append_ne_nil_of_right_ne_nil _ (List.cons_ne_nil _ _), ?_⟩ <;>
    rw [List.forall_mem_append, List.forall_mem_singleton]
  · exact ⟨fun name h => hNames name (List.dropLast_subset _ h), isSegment_empty⟩
  · exact ⟨hNames, isSegment_empty⟩
  · exact ⟨hNames, isSegment_encode hWhole (not_or.mpr ⟨hSingle, hDouble⟩)⟩

/-- Whatever is appended to segments, a path comes of it. -/
theorem isPath_appendSegments {parts : List (List Char)} (hSome : parts ≠ [])
    (hNames : ∀ name ∈ names, IsSegment name)
    (hWhole : ∀ part ∈ parts, ∀ c ∈ part, isSlash .special c = false) :
    IsPath (appendSegments .special names parts) := by
  fun_induction appendSegments .special names parts with
  | case1 => exact absurd rfl hSome
  | case2 names segment => exact isPath_appendLast hNames (hWhole segment List.mem_cons_self)
  | case3 names segment rest hRest ih =>
    rw [List.forall_mem_cons] at hWhole
    exact ih hRest (segments_appendInner hNames hWhole.1) hWhole.2

/-- Every text is read as a path. -/
theorem isPath_appendPath (cs : List Char) : IsPath (appendPath .special [] cs) :=
  isPath_appendSegments (List.splitOnP_ne_nil _ _) (by simp)
    fun _ hPart _ hc => (of_mem_splitOnP hPart hc).2

/-- What is read is a path, whatever it is read from. -/
theorem isPath_pathOf (cs : List Char) : IsPath (pathOf .special cs) := by
  cases cs with
  | nil => exact ⟨List.cons_ne_nil _ _, List.forall_mem_singleton.mpr isSegment_empty⟩
  | cons c cs => exact isPath_appendPath _

theorem toList_segmentsText (names : List String) :
    (Path.segments names).text.toList = names.flatMap ('/' :: ·.toList) := by
  rw [Path.text, String.toList_join, List.flatMap_map]
  exact List.flatMap_congr fun name _ => by rw [String.toList_append]; rfl

/-- Nothing in the text of a path ends it. -/
theorem plain_segmentsText (hNames : ∀ n ∈ names, IsSegment n) :
    ∀ c ∈ (Path.segments names).text.toList, 0x20 < c.toNat ∧ endsPath c = false := by
  intro c hc
  rw [toList_segmentsText, List.mem_flatMap] at hc
  obtain ⟨name, hName, hc⟩ := hc
  obtain rfl | hc := List.mem_cons.mp hc
  · decide
  · have hKept := (hNames name hName).keeps c hc
    refine ⟨hKept.lt (by decide), ?_⟩
    rw [endsPath, Bool.or_eq_false_iff, beq_eq_false_iff_ne, beq_eq_false_iff_ne]
    exact ⟨fun h => hKept.notMem (h ▸ by decide), fun h => hKept.notMem (h ▸ by decide)⟩

/-- The text of a path is split into its segments. -/
theorem splitOnP_segmentsText (hNames : ∀ n ∈ name :: names, IsSegment n) :
    (name.toList ++ names.flatMap ('/' :: ·.toList)).splitOnP (isSlash .special) =
      (name :: names).map String.toList := by
  induction names generalizing name with
  | nil =>
    rw [List.flatMap_nil, List.append_nil,
      List.splitOnP_eq_singleton (hNames name List.mem_cons_self).whole]
    rfl
  | cons next names ih =>
    rw [List.forall_mem_cons] at hNames
    rw [List.flatMap_cons, List.cons_append,
      List.splitOnP_append_cons_of_forall_mem hNames.1.whole _ rfl, ih hNames.2]
    rfl

/-- Segments are appended as they are. -/
theorem appendSegments_map (front : List String) (hSome : names ≠ [])
    (hNames : ∀ n ∈ names, IsSegment n) :
    appendSegments .special front (names.map String.toList) = front ++ names := by
  induction names generalizing front with
  | nil => exact absurd rfl hSome
  | cons name names ih =>
    rw [List.forall_mem_cons] at hNames
    have hPlain := not_or.mp hNames.1.plain
    cases names with
    | nil =>
      rw [List.map_singleton, appendSegments, appendLast, if_neg hPlain.2, if_neg hPlain.1,
        hNames.1.segmentText_eq]
    | cons next names =>
      rw [List.map_cons, appendSegments, appendInner, if_neg hPlain.2, if_neg hPlain.1,
        hNames.1.segmentText_eq, ih _ (List.cons_ne_nil _ _) hNames.2, List.append_assoc]
      · rfl
      · rw [List.map_cons]
        exact List.cons_ne_nil _ _

/-- The text of a path is read as the path. -/
theorem pathOf_segmentsText (h : IsPath names) :
    pathOf .special (Path.segments names).text.toList = names := by
  obtain ⟨hSome, hNames⟩ := h
  obtain ⟨name, names, rfl⟩ := List.exists_cons_of_ne_nil hSome
  rw [toList_segmentsText, List.flatMap_cons, List.cons_append, pathOf,
    if_pos (show isSlash .special '/' = true from rfl), appendPath,
    splitOnP_segmentsText hNames, appendSegments_map [] hSome hNames]
  rfl

end RemoteSigning.Url
