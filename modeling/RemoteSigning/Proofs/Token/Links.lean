import RemoteSigning.Proofs.Url.Reparsing
import RemoteSigning.Token.Link
import Mathlib.Data.List.Induction
import Mathlib.Data.List.TakeWhile

/-!
# Links carry tokens

A link has the token as its only pair, whatever the characters of the token and whatever the base.
Under a special base it leads to the page below the path of the base, and to nowhere else.
-/

namespace RemoteSigning.Token

open Url Text Items

variable {base : Url} {names : List String}

/-- The text without slashes at its end is what is in front of them. -/
structure IsStem (stem text : String) : Prop where
  slashes : ∃ n, text.toList = stem.toList ++ List.replicate n '/'
  last : stem.toList.getLast? ≠ some '/'

theorem toList_trimSlashes (text : String) :
    (trimSlashes text).toList = (text.toList.reverse.dropWhile (· == '/')).reverse :=
  String.toList_ofList

/-- Trimming takes off slashes and nothing else. -/
theorem isStem_trimSlashes (text : String) : IsStem (trimSlashes text) text := by
  have hParts := List.takeWhile_append_dropWhile (p := (· == '/')) (l := text.toList.reverse)
  have hSlashes : text.toList.reverse.takeWhile (· == '/') =
      List.replicate (text.toList.reverse.takeWhile (· == '/')).length '/' :=
    List.eq_replicate_of_mem fun c hc => by simpa using List.mem_takeWhile_imp hc
  refine ⟨⟨(text.toList.reverse.takeWhile (· == '/')).length, ?_⟩, ?_⟩
  · have hText := congrArg List.reverse hParts
    rw [List.reverse_append, List.reverse_reverse, hSlashes, List.reverse_replicate] at hText
    rw [toList_trimSlashes, hText]
  · rw [toList_trimSlashes, List.getLast?_reverse]
    intro hLast
    simpa [hLast] using List.head?_dropWhile_not (· == '/') text.toList.reverse

/-- The text of a path without slashes at its end is that of the path without the empty segments
there. -/
theorem exists_trimSlashes_eq (hNames : ∀ name ∈ names, IsSegment name) :
    ∃ front, (∀ name ∈ front, IsSegment name) ∧
      trimSlashes (Path.segments names).text = (Path.segments front).text := by
  induction names using List.reverseRecOn with
  | nil => exact ⟨[], hNames, rfl⟩
  | append_singleton names name ih =>
    rw [List.forall_mem_append, List.forall_mem_singleton] at hNames
    have hText : (Path.segments (names ++ [name])).text.toList =
        (Path.segments names).text.toList ++ '/' :: name.toList := by
      rw [toList_segmentsText, toList_segmentsText, List.flatMap_append, List.flatMap_singleton]
    by_cases hEmpty : name = ""
    · obtain ⟨front, hFront, hTrim⟩ := ih hNames.1
      refine ⟨front, hFront, String.toList_inj.mp ?_⟩
      rw [← hTrim, toList_trimSlashes, toList_trimSlashes, hText, hEmpty]
      simp
    · obtain ⟨front, last, hName⟩ := List.eq_nil_or_concat' name.toList |>.resolve_left
        fun hNil => hEmpty (String.toList_eq_nil_iff.mp hNil)
      have hLast : (last == '/') = false := by
        have hWhole := hNames.2.whole last (by rw [hName]; simp)
        rw [isSlash, Bool.or_eq_false_iff] at hWhole
        exact hWhole.1
      refine ⟨names ++ [name], List.forall_mem_append.mpr
        ⟨hNames.1, List.forall_mem_singleton.mpr hNames.2⟩, String.toList_inj.mp ?_⟩
      rw [toList_trimSlashes, hText, hName]
      simp [hLast]

theorem isSegment_linkPath : IsSegment linkPath :=
  ⟨by decide, by decide, by rw [isDots_iff]; decide⟩

/-- The page is below the path of the base. -/
theorem setPath_page (h : base.Settled) :
    ∃ names, IsPath names ∧
      base.setPath (trimSlashes base.path.text ++ "/" ++ linkPath) =
        { base with path := .segments names } ∧
      (Path.segments names).text = trimSlashes base.path.text ++ "/" ++ linkPath := by
  obtain ⟨names, hPath, hNames⟩ := h.path
  obtain ⟨front, hFront, hTrim⟩ := exists_trimSlashes_eq hNames.segments
  have hNew : IsPath (front ++ [linkPath]) :=
    ⟨List.append_ne_nil_of_right_ne_nil _ (List.cons_ne_nil _ _),
      List.forall_mem_append.mpr ⟨hFront, List.forall_mem_singleton.mpr isSegment_linkPath⟩⟩
  have hText : (Path.segments (front ++ [linkPath])).text =
      trimSlashes base.path.text ++ "/" ++ linkPath := by
    rw [hPath, hTrim, ← String.toList_inj, String.toList_append, String.toList_append,
      toList_segmentsText, toList_segmentsText, List.flatMap_append, List.flatMap_singleton,
      List.append_assoc]
    rfl
  have hPlain := fun c hc => (plain_segmentsText hNew.segments c hc).1
  refine ⟨front ++ [linkPath], hNew, ?_, hText⟩
  rw [← hText]
  simp only [setPath, hPath, significant_of_plain hPlain, h.special, pathOf_segmentsText hNew]

theorem query_link (base : Url) (token : String) :
    (link base token).query = some (Form.encodePair linkParameter token) := rfl

/-- The token is the only parameter of a link. -/
theorem queryPairs_link (base : Url) (token : String) :
    (link base token).queryPairs = [(linkParameter, token)] := by
  rw [queryPairs, query_link, Option.elim_some, Form.decodePairs_encodePair]

/-- The token that was put into a link is found in it. -/
theorem ofLink?_link (base : Url) (token : String) : ofLink? (link base token) = some token := by
  rw [ofLink?, queryPairs_link]
  exact List.lookup_cons_self

/-- A link is in the form in which a URL is kept, as its base is. -/
theorem settled_link (h : base.Settled) (token : String) : (link base token).Settled := by
  obtain ⟨names, hNames, hPage, -⟩ := setPath_page h
  rw [link, hPage]
  exact {
    special := h.special
    authority := h.authority
    path := ⟨names, rfl, hNames⟩
    query := by
      intro query hQuery c hc
      obtain rfl := Option.some.inj hQuery
      exact Form.keeps_of_mem_encodePair hc
    fragment := fun f hNone => absurd hNone (Option.not_mem_none f) }

/-- A link carries its token, whatever the token is, and nothing else in its query. With a base of
the web it leads to the page below the path of the base, at the place where the base is. -/
theorem link_carries_token (text : String) (base : Url) (token : String)
    (hBase : Url.parse text = .ok base) :
    ofLink? (link base token) = some token ∧
      (link base token).queryPairs = [("token", token)] ∧
      (link base token).fragment = none ∧
      (base.scheme = "http" ∨ base.scheme = "https" →
        (link base token).scheme = base.scheme ∧ (link base token).username = base.username ∧
        (link base token).password = base.password ∧ (link base token).host = base.host ∧
        (link base token).port = base.port ∧
        ∃ stem, IsStem stem base.path.text ∧
          (link base token).path.text = stem ++ "/authenticator") := by
  refine ⟨ofLink?_link base token, queryPairs_link base token, rfl, fun hScheme => ?_⟩
  obtain ⟨names, -, hPage, hText⟩ := setPath_page (settled_of_parse hBase (kind_eq_special hScheme))
  rw [link, hPage]
  refine ⟨rfl, rfl, rfl, rfl, rfl, trimSlashes base.path.text, isStem_trimSlashes _, ?_⟩
  exact hText.trans (String.append_assoc ..)

/-- A base with credentials, a port, empty segments, a token of its own and a fragment. -/
def crowdedBase : Url :=
  { scheme := "https"
    username := "user"
    password := "pw"
    host := some (.domain "example.com")
    port := some 8443
    path := .segments ["app", "", ""]
    query := some "token=old"
    fragment := some "part" }

theorem crowded_link_carries_token :
    Url.parse "https://user:pw@Example.com:8443/app//?token=old#part" = .ok crowdedBase ∧
      ofLink? (link crowdedBase "a&b=c+d %#é") = some "a&b=c+d %#é" ∧
      (link crowdedBase "a&b=c+d %#é").queryPairs = [("token", "a&b=c+d %#é")] ∧
      (link crowdedBase "a&b=c+d %#é").fragment = none ∧
      (link crowdedBase "a&b=c+d %#é").host = some (.domain "example.com") ∧
      ∃ stem, IsStem stem crowdedBase.path.text ∧
        (link crowdedBase "a&b=c+d %#é").path.text = stem ++ "/authenticator" := by
  have hBase : Url.parse "https://user:pw@Example.com:8443/app//?token=old#part" =
      .ok crowdedBase := by
    decide +kernel
  obtain ⟨hToken, hPairs, hFragment, hPlace⟩ :=
    link_carries_token _ crowdedBase "a&b=c+d %#é" hBase
  obtain ⟨-, -, -, hHost, -, hPage⟩ := hPlace (.inr rfl)
  exact ⟨hBase, hToken, hPairs, hFragment, hHost, hPage⟩

end RemoteSigning.Token
