import RemoteSigning.Proofs.Base64
import RemoteSigning.Proofs.Url.Reparsing
import Mathlib.Data.List.Flatten

/-!
# References below a base

A reference that begins with the names of directories leads below a base whose path ends with a
slash. What follows the names is read on: it may divide the path further, leave the directories, end
the path, or lose some of its characters. So it is one segment that stands for it only if it does
none of this.
-/

namespace RemoteSigning.Url

open Text Items
open Percent (inPath)

variable {base u : Url} {names directory : List String} {segment cs : List Char}
  {parts : List (List Char)} {text : String}

/-- The names of directories, each with a slash behind it. -/
def directoryText (directory : List String) : String := String.join (directory.map (· ++ "/"))

theorem toList_directoryText (directory : List String) :
    (directoryText directory).toList = directory.flatMap (·.toList ++ ['/']) := by
  rw [directoryText, String.toList_join, List.flatMap_map]
  exact List.flatMap_congr fun name _ => String.toList_append

theorem plain_directoryText (h : ∀ name ∈ directory, IsSegment name) :
    ∀ c ∈ (directoryText directory).toList, 0x20 < c.toNat ∧ endsPath c = false := by
  intro c hc
  rw [toList_directoryText, List.mem_flatMap] at hc
  obtain ⟨name, hName, hc⟩ := hc
  obtain hc | hc := List.mem_append.mp hc
  · refine plain_segmentsText h c ?_
    rw [toList_segmentsText, List.mem_flatMap]
    exact ⟨name, hName, List.mem_cons_of_mem _ hc⟩
  · rw [List.mem_singleton.mp hc]
    decide

/-- A path with a slash behind it has an empty segment at its end. -/
theorem exists_eq_append_empty (hNames : IsPath names)
    (hSlash : (Path.segments names).text.toList.getLast? = some '/') :
    ∃ front, names = front ++ [""] := by
  obtain ⟨front, name, rfl⟩ := (List.eq_nil_or_concat' names).resolve_left hNames.nonempty
  refine ⟨front, ?_⟩
  rw [toList_segmentsText, List.flatMap_append, List.flatMap_singleton,
    List.getLast?_append_cons, List.getLast?_cons] at hSlash
  obtain hNone | ⟨c, hLast⟩ := Option.eq_none_or_eq_some name.toList.getLast?
  · rw [String.toList_eq_nil_iff.mp (List.getLast?_eq_none_iff.mp hNone)]
  · -- No segment has a slash in it.
    rw [hLast, Option.getD_some, Option.some.injEq] at hSlash
    have hWhole := (hNames.segments name (by simp)).whole c (List.mem_of_getLast? hLast)
    rw [hSlash] at hWhole
    exact absurd hWhole (by decide)

/-- Directories and a last segment behind a path that ends with a slash. -/
theorem text_segments_append (front directory : List String) (name : String) :
    (Path.segments (front ++ directory ++ [name])).text =
      (Path.segments (front ++ [""])).text ++ directoryText directory ++ name := by
  have hSlashes : '/' :: directory.flatMap (·.toList ++ ['/']) =
      directory.flatMap ('/' :: ·.toList) ++ ['/'] := by
    induction directory with
    | nil => rfl
    | cons name directory ih =>
      rw [List.flatMap_cons, List.append_assoc, List.singleton_append, ih, List.flatMap_cons,
        List.cons_append, List.cons_append, List.append_assoc]
  rw [← String.toList_inj, String.toList_append, String.toList_append, toList_directoryText,
    toList_segmentsText, toList_segmentsText]
  calc (front ++ directory ++ [name]).flatMap ('/' :: ·.toList)
    _ = front.flatMap ('/' :: ·.toList) ++
        ((directory.flatMap ('/' :: ·.toList) ++ ['/']) ++ name.toList) := by
      simp only [List.flatMap_append, List.flatMap_singleton, List.append_assoc,
        List.singleton_append]
    _ = (front ++ [""]).flatMap ('/' :: ·.toList) ++ directory.flatMap (·.toList ++ ['/']) ++
        name.toList := by
      rw [← hSlashes, List.flatMap_append, List.flatMap_singleton, List.append_assoc,
        List.append_assoc]
      rfl

/-- The parts of what follows directories come behind them. -/
theorem splitOnP_directoryText (h : ∀ name ∈ directory, IsSegment name) (cs : List Char) :
    ((directoryText directory).toList ++ cs).splitOnP (isSlash .special) =
      directory.map String.toList ++ cs.splitOnP (isSlash .special) := by
  rw [toList_directoryText]
  induction directory with
  | nil => rfl
  | cons name directory ih =>
    rw [List.forall_mem_cons] at h
    rw [List.flatMap_cons, List.append_assoc, List.append_assoc, List.singleton_append,
      List.splitOnP_append_cons_of_forall_mem h.1.whole _ rfl, ih h.2]
    rfl

/-- Parts below a directory go after its names. -/
theorem appendSegments_directory (h : ∀ name ∈ directory, IsSegment name) (hSome : parts ≠ [])
    (names : List String) :
    appendSegments .special names (directory.map String.toList ++ parts) =
      appendSegments .special (names ++ directory) parts := by
  induction directory generalizing names with
  | nil => rw [List.map_nil, List.nil_append, List.append_nil]
  | cons name directory ih =>
    rw [List.forall_mem_cons] at h
    have hPlain := not_or.mp h.1.plain
    rw [List.map_cons, List.cons_append, appendSegments, appendInner, if_neg hPlain.2,
      if_neg hPlain.1, h.1.segmentText_eq, ih h.2, List.append_assoc]
    · rfl
    · exact List.append_ne_nil_of_right_ne_nil _ hSome

/-- The characters of a text that count at the end of a reference. -/
def countedChars (text : String) : List Char := significant (text.toList.rdropWhile isEdge)

/-- The part of them that belongs to the path. -/
def pathChars (text : String) : List Char := (splitPath (countedChars text)).1

theorem trimmed_append_text {front : String} (hSome : front.toList ≠ [])
    (hPlain : ∀ c ∈ front.toList, 0x20 < c.toNat) (text : String) :
    trimmed (front ++ text) = front.toList ++ countedChars text := by
  have hEdge : ∀ c ∈ front.toList, isEdge c = false := fun c hc => isEdge_eq_false (hPlain c hc)
  obtain ⟨c, cs, hFront⟩ := List.exists_cons_of_ne_nil hSome
  have hStart : (front.toList ++ text.toList).dropWhile isEdge = front.toList ++ text.toList := by
    rw [hFront, List.cons_append, List.dropWhile_cons_of_neg]
    exact Bool.eq_false_iff.mp (hEdge c (hFront ▸ List.mem_cons_self))
  have hEnd := rdropWhile_append hEdge text.toList
  rw [List.rdropWhile] at hEnd
  rw [trimmed, String.toList_append, hStart, hEnd, significant, List.filter_append]
  exact congrArg (· ++ countedChars text) (significant_of_plain hPlain)

/-- A reference to a text in directories is resolved by appending the directories to the path of the
base, and then what the text is divided into. -/
theorem resolve_directoryText (hSpecial : base.kind = .special)
    (hBase : base.path = .segments (names ++ [""])) (hSome : directory ≠ [])
    (hDirectory : ∀ name ∈ directory, IsSegment name) (text : String) :
    base.resolve (directoryText directory ++ text) =
      .ok (withTail
        { base with
          path := .segments (appendSegments .special (names ++ directory)
            ((pathChars text).splitOnP (isSlash .special))) }
        (splitPath (countedChars text)).2) := by
  have hPlain := plain_directoryText hDirectory
  have hFront : (directoryText directory).toList ≠ [] := by
    obtain ⟨name, rest, rfl⟩ := List.exists_cons_of_ne_nil hSome
    rw [toList_directoryText, List.flatMap_cons, List.append_assoc]
    exact List.append_ne_nil_of_right_ne_nil _ (List.cons_ne_nil _ _)
  have hSplit : splitPath ((directoryText directory).toList ++ countedChars text) =
      ((directoryText directory).toList ++ pathChars text, (splitPath (countedChars text)).2) := by
    have hInside : ∀ c ∈ (directoryText directory).toList, (!endsPath c) = true :=
      fun c hc => by rw [(hPlain c hc).2]; rfl
    rw [splitPath, List.takeWhile_append_of_pos hInside, List.dropWhile_append_of_pos hInside]
    rfl
  simp only [resolve, hBase, trimmed_append_text hFront fun c hc => (hPlain c hc).1, hSplit,
    hSpecial, shorten, List.dropLast_concat, appendPath, splitOnP_directoryText hDirectory,
    appendSegments_directory hDirectory (List.splitOnP_ne_nil _ _)]
  rfl

/-- A text that is kept as one segment and stands for itself there: it has no sign that divides a
path or ends it and nothing that is dropped, it does not stand for a directory, and it has no
escapes. -/
structure IsContained (text : String) : Prop where
  whole : ∀ c ∈ text.toList, isSlash .special c = false
  inside : ∀ c ∈ text.toList, endsPath c = false
  kept : ∀ c ∈ text.toList, isIgnored c = false
  ending : ∀ c ∈ text.toList.getLast?, isEdge c = false
  plain : ¬ IsDots text.toList
  unescaped : Percent.decode (octets text) = octets text

/-- Whether a URL is that of a text in directories below a base: the place is the same, the path is
that of the base with the directories and one segment behind it, which stands for the text, and there
is nothing else. -/
structure IsBelow (base : Url) (directory : String) (text : String) (u : Url) : Prop where
  scheme : u.scheme = base.scheme
  host : u.host = base.host
  port : u.port = base.port
  path : ∃ segment : String, '/' ∉ segment.toList ∧
    Percent.decode (octets segment) = octets text ∧
    u.path.text = base.path.text ++ directory ++ segment
  query : u.query = none
  fragment : u.fragment = none

/-- No two texts have the same path below a base. -/
theorem IsBelow.eq_of_path_eq {directory text' : String} {u' : Url}
    (h : IsBelow base directory text u) (h' : IsBelow base directory text' u')
    (hPath : u.path = u'.path) : text = text' := by
  obtain ⟨segment, -, hDecode, hText⟩ := h.path
  obtain ⟨segment', -, hDecode', hText'⟩ := h'.path
  rw [hPath, hText', String.append_right_inj] at hText
  rw [hText, hDecode] at hDecode'
  exact octets_injective hDecode'

theorem sublist_countedChars (text : String) : (countedChars text).Sublist text.toList :=
  List.filter_sublist.trans (List.rdropWhile_prefix _ _).sublist

theorem sublist_pathChars (text : String) : (pathChars text).Sublist text.toList :=
  (List.takeWhile_sublist _).trans (sublist_countedChars text)

/-- The last segment is what the last part is written as, unless that stands for a directory. -/
theorem appendSegments_last (names : List String) (hSome : parts ≠ []) :
    ∃ front name, appendSegments .special names parts = front ++ [name] ∧
      (name = "" ∨ ∃ part ∈ parts, ¬ IsDots part ∧
        name = String.ofList (Percent.encode inPath part)) := by
  fun_induction appendSegments .special names parts with
  | case1 => exact absurd rfl hSome
  | case2 names segment =>
    rw [appendLast, segmentText_special]
    split_ifs with hDouble hSingle
    · exact ⟨_, _, rfl, .inl rfl⟩
    · exact ⟨_, _, rfl, .inl rfl⟩
    · exact ⟨_, _, rfl, .inr ⟨segment, List.mem_cons_self, not_or.mpr ⟨hSingle, hDouble⟩, rfl⟩⟩
  | case3 names segment rest hRest ih =>
    obtain ⟨front, name, hAll, hName⟩ := ih hRest
    refine ⟨front, name, hAll, hName.imp_right ?_⟩
    rintro ⟨part, hPart, hLast⟩
    exact ⟨part, List.mem_cons_of_mem _ hPart, hLast⟩

/-- A part of a text that is decoded to the whole of it is the whole of it. -/
theorem eq_of_decode_eq (hPart : segment.Sublist text.toList)
    (h : Percent.decode (segment.flatMap charOctets) = octets text) : segment = text.toList := by
  have hOctets : (segment.flatMap charOctets).Sublist (octets text) := hPart.flatMap _
  have hLength := Percent.length_decode_le (segment.flatMap charOctets)
  rw [h] at hLength
  have hSame : octets (String.ofList segment) = octets text := by
    rw [octets, String.toList_ofList]
    exact hOctets.eq_of_length_le hLength
  rw [← octets_injective hSame, String.toList_ofList]

theorem isContained_empty : IsContained "" :=
  ⟨by simp, by simp, by simp, by simp, by rw [isDots_iff]; decide, rfl⟩

/-- A text of which all is in one part is contained. -/
theorem isContained_of_mem (hPart : text.toList ∈ (pathChars text).splitOnP (isSlash .special))
    (hPlain : ¬ IsDots text.toList) (h : Percent.decode (octets text) = octets text) :
    IsContained text := by
  obtain ⟨hSub, hWhole⟩ := sublist_of_mem_splitOnP hPart
  have hCounted : text.toList.Sublist (countedChars text) := hSub.trans (List.takeWhile_sublist _)
  refine ⟨hWhole, fun c hc => ?_, fun c hc => ?_, fun c hc => ?_, hPlain, h⟩
  · have hInside := List.mem_takeWhile_imp (hSub.subset hc)
    rwa [Bool.not_eq_true'] at hInside
  · have hKept := (List.mem_filter.mp (hCounted.subset hc)).2
    rwa [Bool.not_eq_true'] at hKept
  · -- Nothing is dropped at the end, so the last character is not one that would be.
    have hEnd : text.toList.rdropWhile isEdge = text.toList :=
      (List.rdropWhile_prefix _ _).sublist.antisymm (hCounted.trans List.filter_sublist)
    obtain ⟨hSome, rfl⟩ := List.mem_getLast?_eq_getLast hc
    exact Bool.eq_false_iff.mpr (List.rdropWhile_eq_self_iff.mp hEnd hSome)

/-- A text is contained if one segment decodes to all of it. -/
theorem isContained_of_segment {name : String}
    (hName : name = "" ∨ ∃ part ∈ (pathChars text).splitOnP (isSlash .special), ¬ IsDots part ∧
      name = String.ofList (Percent.encode inPath part))
    (h : Percent.decode (octets name) = octets text) : IsContained text := by
  obtain rfl | ⟨part, hPart, hPlain, rfl⟩ := hName
  · obtain rfl : "" = text := octets_injective h
    exact isContained_empty
  · rw [octets, String.toList_ofList, Percent.decode_encode_inPath] at h
    have hSub := (sublist_of_mem_splitOnP hPart).1.trans (sublist_pathChars text)
    obtain rfl := eq_of_decode_eq hSub h
    exact isContained_of_mem hPart hPlain h

theorem IsContained.countedChars_eq (h : IsContained text) : countedChars text = text.toList := by
  have hEnd : text.toList.rdropWhile isEdge = text.toList :=
    List.rdropWhile_eq_self_iff.mpr fun hSome =>
      Bool.eq_false_iff.mp (h.ending _ (List.getLast?_eq_some_getLast hSome))
  rw [countedChars, hEnd, significant, List.filter_eq_self]
  exact fun c hc => by rw [h.kept c hc]; rfl

/-- A text that is contained has neither a query nor a fragment. -/
theorem IsContained.splitPath_eq (h : IsContained text) :
    splitPath (countedChars text) = (text.toList, []) := by
  have hInside : ∀ c ∈ text.toList, (!endsPath c) = true := fun c hc => by rw [h.inside c hc]; rfl
  rw [h.countedChars_eq, splitPath, List.takeWhile_eq_self_iff.mpr hInside,
    List.dropWhile_eq_nil_iff.mpr hInside]

/-- A reference to a text in directories is resolved to a URL of the text below the base exactly if
the text is contained. -/
theorem isBelow_resolve_iff (hBase : base.Settled)
    (hSlash : base.path.text.toList.getLast? = some '/') (hSome : directory ≠ [])
    (hDirectory : ∀ name ∈ directory, IsSegment name) (text : String) :
    ∃ u, base.resolve (directoryText directory ++ text) = .ok u ∧ u.scheme = base.scheme ∧
      (IsBelow base (directoryText directory) text u ↔ IsContained text) := by
  obtain ⟨names, hPath, hNames⟩ := hBase.path
  rw [hPath] at hSlash
  obtain ⟨front, rfl⟩ := exists_eq_append_empty hNames hSlash
  have hInner : ∀ name ∈ front ++ directory, IsSegment name :=
    List.forall_mem_append.mpr ⟨(List.forall_mem_append.mp hNames.segments).1, hDirectory⟩
  refine ⟨_, resolve_directoryText hBase.special hPath hSome hDirectory text, rfl, ?_, ?_⟩
  · intro hBelow
    obtain ⟨segment, hOne, hDecode, hText⟩ := hBelow.path
    have hParts := List.splitOnP_ne_nil (isSlash .special) (pathChars text)
    obtain ⟨first, name, hAll, hName⟩ := appendSegments_last (front ++ directory) hParts
    have hOther : '/' ∉ name.toList := fun hMem => by
      have hResult := isPath_appendSegments hParts hInner fun part hPart c hc =>
        (of_mem_splitOnP hPart hc).2
      rw [hAll] at hResult
      exact absurd ((hResult.segments name (by simp)).whole '/' hMem) (by decide)
    have hSame : first.flatMap ('/' :: ·.toList) ++ '/' :: name.toList =
        (front ++ directory).flatMap ('/' :: ·.toList) ++ '/' :: segment.toList := by
      have hChars := congrArg String.toList hText
      rw [hPath, ← text_segments_append] at hChars
      simp only [withTail, hAll, toList_segmentsText, List.flatMap_append,
        List.flatMap_singleton] at hChars
      rw [hChars, List.flatMap_append]
    obtain rfl := String.toList_inj.mp (eq_of_append_cons_eq hOther hOne hSame).2
    exact isContained_of_segment hName hDecode
  · intro hContained
    have hOne : (pathChars text).splitOnP (isSlash .special) = [text.toList] := by
      rw [pathChars, hContained.splitPath_eq, List.splitOnP_eq_singleton hContained.whole]
    have hPlain := not_or.mp hContained.plain
    rw [hOne, hContained.splitPath_eq, appendSegments, appendLast, if_neg hPlain.2,
      if_neg hPlain.1, segmentText_special]
    refine ⟨rfl, rfl, rfl, ⟨String.ofList (Percent.encode inPath text.toList), fun hMem => ?_, ?_,
      ?_⟩, rfl, rfl⟩
    · have hSegment := isSegment_encode hContained.whole hContained.plain
      exact absurd (hSegment.whole '/' hMem) (by decide)
    · rw [octets, String.toList_ofList, Percent.decode_encode_inPath]
      exact hContained.unescaped
    · rw [hPath]
      exact text_segments_append front directory _

end RemoteSigning.Url
