import RemoteSigning.CommandLine.Run
import RemoteSigning.Proofs.Token.Links
import RemoteSigning.Proofs.Token.Verification

/-!
# Tokens on the command line

The line that shows a token is one that the token is found in: a bare token is never taken for a
URL, and a link is read back as the link that it is.
-/

namespace RemoteSigning.CommandLine

open Text Items

variable {base : Url} {base? : Option Url} {text ending : String}

/-- A text without a colon has no scheme. -/
theorem parse_of_notMem (h : ':' ∉ Url.trimmed text) : Url.parse text = .error .noScheme := by
  have hScheme : Url.splitScheme? (Url.trimmed text) = none := by
    rw [Url.splitScheme?]
    split
    · next hRest =>
      have hColon := List.mem_of_mem_drop (hRest ▸ List.mem_cons_self)
      exact absurd hColon h
    · rfl
  rw [Url.parse, hScheme]

/-- No symbol of a token is blank, a control or a colon. -/
theorem of_symbol : ∀ n < 64, 0x20 < (Base64.Alphabet.urlSafe.symbol n).toNat ∧
    isBlank (Base64.Alphabet.urlSafe.symbol n) = false ∧
    Base64.Alphabet.urlSafe.symbol n ≠ ':' := by
  decide +kernel

/-- Nothing in a token is dropped at the end of a line, and nothing makes it a URL. -/
theorem of_mem_issue {secret : ChallengeSecret} {claims : Token.Claims} {c : Char}
    (h : c ∈ (Token.issue secret claims).toList) :
    0x20 < c.toNat ∧ isBlank c = false ∧ c ≠ ':' := by
  have hSegment {bytes : List UInt8} (hc : c ∈ (Base64.encodeUrl bytes).toList) :
      0x20 < c.toNat ∧ isBlank c = false ∧ c ≠ ':' := by
    obtain ⟨n, hn, rfl⟩ := Base64.exists_symbol_of_mem_encodeUrl hc
    exact of_symbol n hn
  have hPoint : ∀ c ∈ ".".toList, 0x20 < c.toNat ∧ isBlank c = false ∧ c ≠ ':' := by decide
  simp only [Token.issue, Token.signedPart, String.toList_append, List.mem_append] at h
  obtain (((h | h) | h) | h) | h := h
  · exact hSegment h
  · exact hPoint c h
  · exact hSegment h
  · exact hPoint c h
  · exact hSegment h

/-- A bare token is taken as it is, with or without the end of a line. -/
theorem extractToken_issue (secret : ChallengeSecret) (claims : Token.Claims)
    (hEnding : ending = "" ∨ ending = "\n") :
    extractToken (Token.issue secret claims ++ ending) = Token.issue secret claims := by
  have hEdge : ∀ c ∈ ending.toList, c.toNat ≤ 0x20 ∧ isBlank c = true := by
    obtain rfl | rfl := hEnding <;> decide
  have hNoUrl : Url.parse (Token.issue secret claims ++ ending) = .error .noScheme := by
    refine parse_of_notMem ?_
    rw [Url.trimmed_append (fun c hc => (of_mem_issue hc).1) fun c hc => (hEdge c hc).1]
    exact fun hColon => (of_mem_issue hColon).2.2 rfl
  have hTrim : trim (Token.issue secret claims ++ ending) = Token.issue secret claims := by
    rw [trim, trimRight, trimLeft, String.toList_append,
      dropWhile_ends (fun c hc => (of_mem_issue hc).2.1) fun c hc => (hEdge c hc).2,
      String.ofList_toList]
  rw [extractToken, hNoUrl, hTrim]
  rfl

/-- From a link the token in it is taken. -/
theorem extractToken_link (h : base.Settled) (token : String)
    (hEnding : ending = "" ∨ ending = "\n") :
    extractToken ((Token.link base token).text ++ ending) = token := by
  have hEdge : ∀ c ∈ ending.toList, c.toNat ≤ 0x20 := by
    obtain rfl | rfl := hEnding <;> decide
  have hParse := Url.parse_text_append (Token.settled_link h token) hEdge
  simp only [extractToken, hParse, Except.toOption, Option.bind_some, Token.ofLink?_link,
    Option.getD_some]

/-- The token is found in the line that shows it, under every base of the web and without one. -/
theorem extractToken_tokenLine (challengeId secret : String) (elapsed : Nat)
    (hBase : ∀ u ∈ base?, u.kind = .special ∧ ∃ text, Url.parse text = .ok u)
    (hEnding : ending = "" ∨ ending = "\n") :
    extractToken (tokenLine challengeId secret elapsed base? ++ ending) =
      Token.issue ⟨secret⟩ ⟨challengeId, elapsed⟩ := by
  cases base? with
  | none => exact extractToken_issue _ _ hEnding
  | some base =>
    obtain ⟨hSpecial, text, hParse⟩ := hBase base rfl
    exact extractToken_link (Url.settled_of_parse hParse hSpecial) _ hEnding

/-- If the token in a text is accepted, its claims are printed and the command succeeds. -/
theorem verifyToken_of_ok {text secret : String} {c : Token.Claims}
    (h : Token.verify ⟨secret⟩ (extractToken text) = .ok c) (json quiet : Bool) :
    verifyToken text secret json quiet = { output := claimsLines json quiet c } := by
  unfold verifyToken
  split
  · next c' h' =>
    obtain rfl := Except.ok.inj (h.symm.trans h')
    rfl
  · next e h' => cases h.symm.trans h'

/-- What is issued is accepted: the line that is printed verifies under the secret that it was made
with, as the challenge and the second that it was made for, and with its line break. -/
theorem issued_line_is_accepted (challengeId secret : String) (elapsed : UInt64)
    (base? : Option Url)
    (hBase : ∀ u ∈ base?, (u.scheme = "http" ∨ u.scheme = "https") ∧
      ∃ text, Url.parse text = .ok u)
    (w w' : World) (json quiet quiet' : Bool) :
    ∃ line,
      Invocation.run w ⟨.issueToken challengeId secret elapsed.toNat base?, quiet⟩ =
        { output := [line] } ∧
      ∀ ending, ending = "" ∨ ending = "\n" →
        Token.verify ⟨secret⟩ (extractToken (line ++ ending)) = .ok ⟨challengeId, elapsed.toNat⟩ ∧
        Invocation.run w' ⟨.verifyToken (line ++ ending) secret json, quiet'⟩ =
          { output := claimsLines json quiet' ⟨challengeId, elapsed.toNat⟩ } := by
  refine ⟨tokenLine challengeId secret elapsed.toNat base?, rfl, fun ending hEnding => ?_⟩
  have hToken := extractToken_tokenLine challengeId secret elapsed.toNat
    (fun u hu => (hBase u hu).imp_left Url.kind_eq_special) hEnding
  have hVerify : Token.verify ⟨secret⟩
      (extractToken (tokenLine challengeId secret elapsed.toNat base? ++ ending)) =
        .ok ⟨challengeId, elapsed.toNat⟩ := by
    rw [hToken, Token.verify_issue elapsed.toNat_lt]
  exact ⟨hVerify, verifyToken_of_ok hVerify json quiet'⟩

/-- A base whose domain is not ASCII and whose query has a token of its own. -/
def foreignBase : Url :=
  { scheme := "http"
    host := some (.domain "xn--bcher-kva.example")
    port := some 8080
    path := .segments ["rp", ""]
    query := some "token=other" }

/-- A line that was printed for a link at a host with a name beyond ASCII is accepted with the
secret it was issued with. -/
theorem foreign_line_is_accepted :
    let w : World :=
      { environment := [], network := .unreachable, dial := fun _ => .error "Network is unreachable"
        now := ⟨0, 0⟩ }
    Url.parse "http://Bücher.example:8080/rp/?token=other" = .ok foreignBase ∧
      ∃ line,
        Invocation.run w ⟨.issueToken "c=1&d" "s3cret" (2 ^ 64 - 1) (some foreignBase), false⟩ =
          { output := [line] } ∧
        ∀ ending, ending = "" ∨ ending = "\n" →
          Token.verify ⟨"s3cret"⟩ (extractToken (line ++ ending)) = .ok ⟨"c=1&d", 2 ^ 64 - 1⟩ ∧
          Invocation.run w ⟨.verifyToken (line ++ ending) "s3cret" true, false⟩ =
            { output := claimsLines true false ⟨"c=1&d", 2 ^ 64 - 1⟩ } := by
  intro w
  have hParse : Url.parse "http://Bücher.example:8080/rp/?token=other" = .ok foreignBase := by
    decide +kernel
  refine ⟨hParse, issued_line_is_accepted "c=1&d" "s3cret" 0xFFFFFFFFFFFFFFFF (some foreignBase) ?_
    w w true false false⟩
  rintro _ ⟨⟩
  exact ⟨.inl rfl, _, hParse⟩

end RemoteSigning.CommandLine
