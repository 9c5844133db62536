import RemoteSigning.Proofs.Url.Authorities
import RemoteSigning.Proofs.Url.Paths

/-!
# URLs are read back

A special URL that is read keeps each of its parts in a form that is written as it stands. So its
text is read as the URL again, whatever text it was first read from.
-/

namespace RemoteSigning.Url

open Text Items
open Percent (inPath inSpecialQuery inFragment)

variable {u : Url} {scheme : String} {cs rest : List Char}

/-- The schemes that imply a port. -/
def specialSchemes : List String := ["http", "ws", "https", "wss", "ftp"]

theorem mem_specialSchemes (h : SchemeKind.of scheme = .special) : scheme ∈ specialSchemes := by
  rw [SchemeKind.of] at h
  split_ifs at h with hFile hImplied
  unfold impliedPort at hImplied
  split at hImplied <;> first | decide | cases hImplied

theorem kind_eq_special (h : u.scheme = "http" ∨ u.scheme = "https") : u.kind = .special := by
  rw [kind]
  obtain h | h := h <;> rw [h] <;> rfl

theorem splitScheme?_special (h : scheme ∈ specialSchemes) (rest : List Char) :
    splitScheme? (scheme.toList ++ ':' :: rest) = some (scheme, rest) := by
  simp only [specialSchemes, List.mem_cons, List.not_mem_nil, or_false] at h
  obtain rfl | rfl | rfl | rfl | rfl := h <;> rfl

theorem plain_scheme : ∀ scheme ∈ specialSchemes, ∀ c ∈ scheme.toList, 0x20 < c.toNat := by decide

/-- Query and fragment as they are written. -/
def tailChars (u : Url) : List Char :=
  u.query.elim [] ('?' :: ·.toList) ++ u.fragment.elim [] ('#' :: ·.toList)

theorem takeWhile_query {q tail : List Char} (hQuery : ∀ c ∈ q, inSpecialQuery.Keeps c)
    (hTail : ∀ c ∈ tail.head?, c = '#') : (q ++ tail).takeWhile (· != '#') = q := by
  have hSign : '#' ∉ q := fun hMem => (hQuery _ hMem).notMem (by decide)
  rw [List.takeWhile_append_of_pos (ne_of_notMem hSign)]
  cases tail with
  | nil => rw [List.takeWhile_nil, List.append_nil]
  | cons c tail =>
    rw [hTail c rfl, List.takeWhile_cons_of_neg (by decide), List.append_nil]

/-- The query and the fragment are read from what is written for them. -/
theorem withTail_tailChars (hSpecial : u.kind = .special)
    (hQuery : ∀ q ∈ u.query, ∀ c ∈ q.toList, inSpecialQuery.Keeps c)
    (hFragment : ∀ f ∈ u.fragment, ∀ c ∈ f.toList, inFragment.Keeps c) :
    withTail { u with query := none, fragment := none } u.tailChars = u := by
  have hSign : inSpecialQuery.Keeps '?' := by decide
  have hPart : u.tailChars.takeWhile (· != '#') = u.query.elim [] ('?' :: ·.toList) := by
    refine takeWhile_query ?_ (by cases u.fragment <;> simp)
    cases hText : u.query with
    | none => simp
    | some q => exact List.forall_mem_cons.mpr ⟨hSign, hQuery q hText⟩
  have hRest : u.tailChars.drop (u.query.elim [] ('?' :: ·.toList)).length =
      u.fragment.elim [] ('#' :: ·.toList) := List.drop_left
  have hQueryText : ((u.query.elim [] ('?' :: ·.toList)).head?.map fun _ => String.ofList
      (Percent.encode inSpecialQuery ((u.query.elim [] ('?' :: ·.toList)).drop 1))) = u.query := by
    cases hText : u.query with
    | none => rfl
    | some q =>
      rw [Option.elim_some, List.head?_cons, Option.map_some, List.drop_one, List.tail_cons,
        Percent.encode_of_keeps (hQuery q hText), String.ofList_toList]
  have hFragmentText : ((u.fragment.elim [] ('#' :: ·.toList)).head?.map fun _ => String.ofList
      (Percent.encode inFragment ((u.fragment.elim [] ('#' :: ·.toList)).drop 1))) = u.fragment := by
    cases hText : u.fragment with
    | none => rfl
    | some f =>
      rw [Option.elim_some, List.head?_cons, Option.map_some, List.drop_one, List.tail_cons,
        Percent.encode_of_keeps (hFragment f hText), String.ofList_toList]
  have hKind : kind { u with query := none, fragment := none } = .special := hSpecial
  simp only [withTail, hKind, SchemeKind.isStrict, if_true, hPart, hRest, hQueryText, hFragmentText]

/-- What is read of a query and a fragment is kept as it stands. -/
theorem keeps_withTail (hSpecial : u.kind = .special) (cs : List Char) :
    (∀ q ∈ (withTail u cs).query, ∀ c ∈ q.toList, inSpecialQuery.Keeps c) ∧
      ∀ f ∈ (withTail u cs).fragment, ∀ c ∈ f.toList, inFragment.Keeps c := by
  constructor
  · intro q hq c hc
    obtain ⟨-, -, rfl⟩ := Option.map_eq_some_iff.mp hq
    rw [hSpecial, String.toList_ofList] at hc
    exact Percent.keeps_of_mem_encode Percent.keeps_signs_inSpecialQuery hc
  · intro f hf c hc
    obtain ⟨-, -, rfl⟩ := Option.map_eq_some_iff.mp hf
    rw [String.toList_ofList] at hc
    exact Percent.keeps_of_mem_encode Percent.keeps_signs_inFragment hc

/-- The authority of a URL with a host. -/
def authority (u : Url) (host : Host) : Authority :=
  { username := u.username, password := u.password, host, port := u.port }

/-- A special URL as it is kept: each part is written as it stands. -/
structure Settled (u : Url) : Prop where
  special : u.kind = .special
  authority : ∃ host, u.host = some host ∧ (u.authority host).Settled u.scheme
  path : ∃ names, u.path = .segments names ∧ IsPath names
  query : ∀ q ∈ u.query, ∀ c ∈ q.toList, inSpecialQuery.Keeps c
  fragment : ∀ f ∈ u.fragment, ∀ c ∈ f.toList, inFragment.Keeps c

theorem Settled.hasHost_eq (h : u.Settled) : u.hasHost = true := by
  obtain ⟨host, hHost, hAuthority⟩ := h.authority
  have hSome : host.text.toList ≠ [] := hAuthority.host.nonempty
  rw [hasHost, hHost]
  split
  · next hNone => cases hNone
  · next hEmpty =>
    obtain rfl := Option.some.inj hEmpty
    exact absurd rfl hSome
  · rfl

/-- What is parsed with an authority is settled. -/
theorem settled_of_parseWithAuthority (hKind : SchemeKind.of scheme = .special)
    (h : parseWithAuthority scheme cs = .ok u) : u.Settled := by
  obtain ⟨⟨a, rest⟩, hAuthority, h⟩ := Except.bind_eq_ok.mp h
  obtain rfl := Except.ok.inj h
  have hSettled := settled_of_readAuthority hKind hAuthority
  have hTail := keeps_withTail (u := Url.mk scheme a.username a.password (some a.host) a.port
    (.segments (pathOf (.of scheme) (splitPath rest).1)) none none) hKind (splitPath rest).2
  exact {
    special := hKind
    authority := ⟨a.host, rfl, hSettled⟩
    path := ⟨_, rfl, hKind ▸ isPath_pathOf _⟩
    query := hTail.1
    fragment := hTail.2 }

theorem scheme_of_parseFile (h : parseFile cs = .ok u) : u.scheme = "file" := by
  have hHost {cs : List Char} (h : parseFileHost cs = .ok u) : u.scheme = "file" := by
    simp only [parseFileHost] at h
    split_ifs at h with hNone
    · obtain rfl := Except.ok.inj h
      rfl
    · obtain ⟨host, -, h⟩ := Except.bind_eq_ok.mp h
      split at h <;> obtain rfl := Except.ok.inj h <;> rfl
  unfold parseFile at h
  split at h
  · split_ifs at h
    · exact hHost h
    · obtain rfl := Except.ok.inj h
      rfl
  · obtain rfl := Except.ok.inj h
    rfl

theorem scheme_of_parseGeneral (h : parseGeneral scheme cs = .ok u) : u.scheme = scheme := by
  unfold parseGeneral at h
  split at h
  · obtain ⟨⟨a, rest⟩, -, h⟩ := Except.bind_eq_ok.mp h
    obtain rfl := Except.ok.inj h
    rfl
  · obtain rfl := Except.ok.inj h
    rfl

/-- Every special URL that is read is settled. -/
theorem settled_of_parse {text : String} (h : parse text = .ok u) (hSpecial : u.kind = .special) :
    u.Settled := by
  rw [parse] at h
  split at h
  · cases h
  · next scheme rest _ =>
    cases hKind : SchemeKind.of scheme with
    | file =>
      rw [hKind] at h
      rw [kind, scheme_of_parseFile h] at hSpecial
      exact absurd hSpecial (by decide)
    | special =>
      rw [hKind] at h
      exact settled_of_parseWithAuthority hKind h
    | general =>
      rw [hKind] at h
      rw [kind, scheme_of_parseGeneral h, hKind] at hSpecial
      cases hSpecial

theorem toList_credentialsText (u : Url) :
    u.credentialsText.toList = withAt (credentialsOf u.username u.password) := by
  rw [credentialsText, credentialsOf]
  split_ifs
  · rfl
  · rw [String.toList_append]
    rfl
  · rw [String.toList_append, String.toList_append, String.toList_append, List.append_assoc
      u.username.toList]
    rfl

theorem toList_portText (port : Option Nat) :
    (port.elim "" fun p => ":" ++ toString p).toList = portText port := by
  cases port with
  | none => rfl
  | some p =>
    rw [Option.elim_some, String.toList_append, Nat.toString_eq_repr, Nat.toList_repr]
    rfl

theorem toList_tail (u : Url) :
    (u.query.elim "" ("?" ++ ·)).toList ++ (u.fragment.elim "" ("#" ++ ·)).toList =
      u.tailChars := by
  have hPart (sign : String) (part : Option String) :
      (part.elim "" (sign ++ ·)).toList = part.elim [] (sign.toList ++ ·.toList) := by
    cases part with
    | none => rfl
    | some text => exact String.toList_append
  rw [hPart, hPart]
  rfl

/-- The parts in which an address is written. -/
theorem toList_text {host : Host} (hHost : u.host = some host) :
    u.text.toList = u.scheme.toList ++ ':' :: '/' :: '/' ::
      ((u.authority host).chars ++ (u.path.text.toList ++ u.tailChars)) := by
  simp only [text, authorityText, hHost, String.toList_append, toList_credentialsText,
    toList_portText, List.append_assoc, toList_tail, Authority.chars, authority]
  rfl

theorem splitPath_append {path : List Char} (hPath : ∀ c ∈ path, endsPath c = false) (u : Url) :
    splitPath (path ++ u.tailChars) = (path, u.tailChars) := by
  have hInside : ∀ c ∈ path, (!endsPath c) = true := fun c hc => by rw [hPath c hc]; rfl
  have hStop : u.tailChars.takeWhile (!endsPath ·) = [] ∧
      u.tailChars.dropWhile (!endsPath ·) = u.tailChars := by
    rw [tailChars]
    cases u.query with
    | some q => exact ⟨rfl, rfl⟩
    | none => cases u.fragment <;> exact ⟨rfl, rfl⟩
  rw [splitPath, List.takeWhile_append_of_pos hInside, List.dropWhile_append_of_pos hInside,
    hStop.1, hStop.2, List.append_nil]

/-- A settled address is read from its parts. -/
theorem parseWithAuthority_chars (h : u.Settled) {host : Host} (hHost : u.host = some host) :
    parseWithAuthority u.scheme
      ((u.authority host).chars ++ (u.path.text.toList ++ u.tailChars)) = .ok u := by
  obtain ⟨host', hHost', hAuthority⟩ := h.authority
  obtain rfl : host = host' := Option.some.inj (hHost.symm.trans hHost')
  obtain ⟨names, hPath, hNames⟩ := h.path
  obtain ⟨more, hMore⟩ : ∃ more, (Path.segments names).text.toList = '/' :: more := by
    obtain ⟨name, later, rfl⟩ := List.exists_cons_of_ne_nil hNames.nonempty
    exact ⟨_, toList_segmentsText _⟩
  have hRead := readAuthority_chars h.special hAuthority (more ++ u.tailChars)
  have hSplit := splitPath_append (fun c hc => (plain_segmentsText hNames.segments c hc).2) u
  have hNamesRead := pathOf_segmentsText hNames
  have hTail := withTail_tailChars h.special h.query h.fragment
  have hSpecial : SchemeKind.of u.scheme = .special := h.special
  rw [← List.cons_append, ← hMore] at hRead
  simp only [hPath, parseWithAuthority, hRead, Except.ok_bind, hSplit, hSpecial, hNamesRead]
  rw [hHost, hPath] at hTail
  exact congrArg Except.ok hTail

/-- Nothing in the text of a URL is dropped where it is read. -/
theorem Settled.plain (h : u.Settled) : ∀ c ∈ u.text.toList, 0x20 < c.toNat := by
  obtain ⟨host, hHost, hAuthority⟩ := h.authority
  obtain ⟨names, hPath, hNames⟩ := h.path
  have hSigns : ∀ c ∈ [':', '/', '?', '#'], 0x20 < c.toNat := by decide
  rw [toList_text hHost, hPath, tailChars]
  simp only [List.forall_mem_append, List.forall_mem_cons]
  refine ⟨plain_scheme _ (mem_specialSchemes h.special), hSigns ':' (by decide),
    hSigns '/' (by decide), hSigns '/' (by decide), fun c hc => (hAuthority.plain c hc).1,
    fun c hc => (plain_segmentsText hNames.segments c hc).1, ?_, ?_⟩
  · cases hQuery : u.query with
    | none => exact fun c hc => absurd hc List.not_mem_nil
    | some q =>
      exact List.forall_mem_cons.mpr ⟨hSigns '?' (by decide),
        fun c hc => (h.query q hQuery c hc).lt (by decide)⟩
  · cases hFragment : u.fragment with
    | none => exact fun c hc => absurd hc List.not_mem_nil
    | some f =>
      exact List.forall_mem_cons.mpr ⟨hSigns '#' (by decide),
        fun c hc => (h.fragment f hFragment c hc).lt (by decide)⟩

theorem isEdge_eq_false {c : Char} (h : 0x20 < c.toNat) : isEdge c = false :=
  decide_eq_false (Nat.not_le.mpr h)

/-- Plain characters are all significant. -/
theorem significant_of_plain (hPlain : ∀ c ∈ cs, 0x20 < c.toNat) : significant cs = cs := by
  have hIgnored : ∀ c, isIgnored c = true → c.toNat ≤ 0x20 := by
    intro c hc
    simp only [isIgnored, Bool.or_eq_true, beq_iff_eq] at hc
    obtain (rfl | rfl) | rfl := hc <;> decide
  rw [significant, List.filter_eq_self]
  intro c hc
  rw [Bool.not_eq_true', Bool.eq_false_iff]
  exact fun h => Nat.not_le.mpr (hPlain c hc) (hIgnored c h)

/-- What follows a text on its line does not count. -/
theorem trimmed_append {text ending : String} (hPlain : ∀ c ∈ text.toList, 0x20 < c.toNat)
    (hEnding : ∀ c ∈ ending.toList, c.toNat ≤ 0x20) : trimmed (text ++ ending) = text.toList := by
  rw [trimmed, String.toList_append, dropWhile_ends (fun c hc => isEdge_eq_false (hPlain c hc))
    fun c hc => decide_eq_true (hEnding c hc), significant_of_plain hPlain]

/-- The text of a settled URL is read as the URL, also where a line ends after it. -/
theorem parse_text_append (h : u.Settled) {ending : String}
    (hEnding : ∀ c ∈ ending.toList, c.toNat ≤ 0x20) : parse (u.text ++ ending) = .ok u := by
  obtain ⟨host, hHost, hAuthority⟩ := h.authority
  have hSpecial : SchemeKind.of u.scheme = .special := h.special
  have hFirst : ((u.authority host).chars ++ (u.path.text.toList ++ u.tailChars)).dropWhile
      (isSlash .special) = (u.authority host).chars ++ (u.path.text.toList ++ u.tailChars) := by
    obtain ⟨c, cs, hChars⟩ := List.exists_cons_of_ne_nil hAuthority.chars_ne_nil
    have hSlash := isSlash_of_endsAuthority (hAuthority.plain c (hChars ▸ List.mem_cons_self)).2
    rw [hChars, List.cons_append, List.dropWhile_cons_of_neg (Bool.eq_false_iff.mp hSlash)]
  rw [parse, trimmed_append h.plain hEnding, toList_text hHost,
    splitScheme?_special (mem_specialSchemes h.special)]
  simp only [hSpecial]
  rw [List.dropWhile_cons_of_pos rfl, List.dropWhile_cons_of_pos rfl, hFirst,
    parseWithAuthority_chars h hHost]

end RemoteSigning.Url
