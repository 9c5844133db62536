import RemoteSigning.Proofs.RelyingParty.Answers
import RemoteSigning.Proofs.Url.References

/-!
# Where a challenge is

The id of a challenge is put into a reference as it is. Requests for the challenge go to one segment
that stands for the id exactly if the id stays inside its segment; any other id leads elsewhere, to
another challenge or to something that is no challenge at all.
-/

namespace RemoteSigning.RelyingParty

open Ceremony Network Url Items

variable {client : Client} {log : Log} {base u : Url} {p : Url → Prop}

/-- The directories in which a relying party has its challenges. -/
def challengeDirectory : List String := ["api", "v1", "challenge"]

theorem directoryText_challengeDirectory :
    directoryText challengeDirectory = "api/v1/challenge/" := by decide

theorem isSegment_of_mem_challengeDirectory : ∀ name ∈ challengeDirectory, IsSegment name := by
  intro name hName
  have hKept : ∀ name ∈ challengeDirectory, (∀ c ∈ name.toList, Percent.inPath.Keeps c) ∧
      (∀ c ∈ name.toList, isSlash .special c = false) ∧ name.toList.map Char.toLower ∉ dotForms := by
    decide
  obtain ⟨hKeeps, hWhole, hPlain⟩ := hKept name hName
  exact ⟨hKeeps, hWhole, fun hDots => hPlain (isDots_iff.mp hDots)⟩

/-- Whether requests have been added to a log, at least one, and all of them for URLs with a
property. -/
def Log.AddsFor (log after : Log) (p : Url → Prop) : Prop :=
  ∃ posts : List Network.Request,
    after.sent = log.sent ++ posts ∧ posts ≠ [] ∧ ∀ post ∈ posts, p post.url

theorem Log.AddsFor.imp {after : Log} {q : Url → Prop} (h : log.AddsFor after p)
    (hImp : ∀ u, p u → q u) : log.AddsFor after q := by
  obtain ⟨posts, hSent, hSome, hAll⟩ := h
  exact ⟨posts, hSent, hSome, fun post hPost => hImp _ (hAll post hPost)⟩

/-- A call adds requests to the log for the address of its own request only. -/
theorem Client.call_addsFor {ε α : Type} {again : Bool} {lift : TransportFailure → ε}
    {request : Except ε Network.Request} {interpret : Network.Response → Except ε α}
    {r : Network.Request} (hMade : request = .ok r) (hSendable : isSendable r.url.scheme = true)
    (hUrl : p r.url) (client : Client) (log : Log) :
    log.AddsFor (client.call again lift request interpret log).2 p := by
  subst hMade
  obtain ⟨answers, hConcludes, -⟩ := client.call_concludes again lift (.ok r) interpret log
  generalize client.call again lift (.ok r) interpret log = ended at hConcludes
  obtain ⟨posts, hSent, hLength, hAll⟩ := hConcludes.sent_eq
  refine ⟨posts, hSent, ?_, fun post hPost => Except.ok.inj (hAll post hPost) ▸ hUrl⟩
  rintro rfl
  have hNone : answers = [] := List.length_eq_zero_iff.mp hLength.symm
  cases hConcludes with
  | unmade hUnmade => cases hUnmade
  | unsent hSame hUnsendable =>
    rw [← Except.ok.inj hSame, hSendable] at hUnsendable
    cases hUnsendable
  | answered _ _ hLast =>
    rw [hNone] at hLast
    cases hLast

/-- A request has the URL that it is made for, but for the credentials. -/
theorem exists_url_make (method : String) (u : Url) (json : Option String) :
    ∃ username password, (Request.make method u json).url = { u with username, password } := by
  rw [Request.make]
  split
  · split_ifs
    · exact ⟨u.username, u.password, rfl⟩
    · exact ⟨"", "", rfl⟩
  · exact ⟨u.username, u.password, rfl⟩

/-- Whether an address is below another one does not depend on the credentials in it. -/
theorem isBelow_credentials (directory text username password : String) :
    IsBelow base directory text { u with username, password } ↔ IsBelow base directory text u :=
  ⟨fun h => ⟨h.scheme, h.host, h.port, h.path, h.query, h.fragment⟩,
    fun h => ⟨h.scheme, h.host, h.port, h.path, h.query, h.fragment⟩⟩

/-- The URL of a challenge below a base of the web. -/
theorem exists_challengeUrl (hBase : base.Settled)
    (hScheme : base.scheme = "http" ∨ base.scheme = "https")
    (hSlash : base.path.text.toList.getLast? = some '/') (hClient : client.config.baseUrl = base)
    (challengeId : String) :
    ∃ u, client.endpoint (Client.challengePath challengeId) = .ok u ∧
      isSendable u.scheme = true ∧
      (IsBelow base "api/v1/challenge/" challengeId u ↔ IsContained challengeId) := by
  have hSome : challengeDirectory ≠ [] := List.cons_ne_nil _ _
  obtain ⟨u, hResolve, hSame, hBelow⟩ :=
    isBelow_resolve_iff hBase hSlash hSome isSegment_of_mem_challengeDirectory challengeId
  rw [directoryText_challengeDirectory] at hResolve hBelow
  refine ⟨u, ?_, ?_, hBelow⟩
  · have hPath : Client.challengePath challengeId = "api/v1/challenge/" ++ challengeId := rfl
    rw [Client.endpoint, hClient, hPath, hResolve]
    rfl
  · rw [hSame]
    obtain hScheme | hScheme := hScheme <;> rw [hScheme] <;> rfl

/-- At a base of the web whose path ends with a slash, fetching a challenge, submitting a credential
and rejecting the challenge send requests to one segment behind that path and the directories of
challenges, which stands for the id, and to nothing else there, exactly if the id is contained in its
segment. No two ids have such a segment in common. -/
theorem Client.challenge_below_base_iff {location : String} (hParse : Url.parse location = .ok base)
    (hScheme : base.scheme = "http" ∨ base.scheme = "https")
    (hSlash : base.path.text.toList.getLast? = some '/') (hClient : client.config.baseUrl = base)
    (challengeId : String) (log : Log) :
    (log.AddsFor (client.fetch challengeId log).2 fun u =>
        IsBelow base "api/v1/challenge/" challengeId u ↔ IsContained challengeId) ∧
      (∀ m, log.AddsFor (client.submit challengeId m log).2 fun u =>
        IsBelow base "api/v1/challenge/" challengeId u ↔ IsContained challengeId) ∧
      (log.AddsFor (client.reject challengeId log).2 fun u =>
        IsBelow base "api/v1/challenge/" challengeId u ↔ IsContained challengeId) ∧
      ∀ otherId u u', IsBelow base "api/v1/challenge/" challengeId u →
        IsBelow base "api/v1/challenge/" otherId u' → u.path = u'.path → challengeId = otherId := by
  have hSettled := settled_of_parse hParse (kind_eq_special hScheme)
  obtain ⟨u, hEndpoint, hSendable, hBelow⟩ :=
    exists_challengeUrl hSettled hScheme hSlash hClient challengeId
  have hMade (method : String) (json : Option String) :
      client.addressing method challengeId json = .ok (.make method u json) := by
    rw [addressing, hEndpoint]
    rfl
  have hUrl (method : String) (json : Option String) :
      isSendable (Request.make method u json).url.scheme = true ∧
        (IsBelow base "api/v1/challenge/" challengeId (Request.make method u json).url ↔
          IsContained challengeId) := by
    obtain ⟨username, password, hUrl⟩ := exists_url_make method u json
    rw [hUrl, isBelow_credentials]
    exact ⟨hSendable, hBelow⟩
  refine ⟨?_, fun m => ?_, ?_, fun otherId u u' h h' => h.eq_of_path_eq h'⟩
  · exact call_addsFor (hMade "GET" none) (hUrl "GET" none).1 (hUrl "GET" none).2 client log
  · exact call_addsFor (hMade "POST" _) (hUrl "POST" _).1 (hUrl "POST" _).2 client log
  · exact call_addsFor (hMade "DELETE" none) (hUrl "DELETE" none).1 (hUrl "DELETE" none).2 client log

/-- A client of a relying party at the local host. -/
def localClient : Client where
  config :=
    { baseUrl := { scheme := "http", host := some (.domain "localhost"), path := .segments [""] } }
  network := .unreachable
  chance := fun _ => 0

/-- An id with a blank stays in its segment. One with a slash does not: rejecting such a challenge
sends a request to where outcomes are asked for. -/
theorem localClient_leaves_challenges :
    Url.parse "http://localhost" = .ok localClient.config.baseUrl ∧
      Log.AddsFor {} (localClient.fetch "a b" {}).2
        (IsBelow localClient.config.baseUrl "api/v1/challenge/" "a b") ∧
      Log.AddsFor {} (localClient.reject "../collect" {}).2
        (fun u => ¬ IsBelow localClient.config.baseUrl "api/v1/challenge/" "../collect" u) ∧
      localClient.endpoint (Client.challengePath "../collect") =
        localClient.endpoint Client.collectPath := by
  have hParse : Url.parse "http://localhost" = .ok localClient.config.baseUrl := by decide +kernel
  have hBelow (challengeId : String) :=
    Client.challenge_below_base_iff hParse (.inl rfl) (by decide) rfl challengeId {}
  refine ⟨hParse, ?_, ?_, by decide +kernel⟩
  · have hEnding : ∀ c ∈ "a b".toList.getLast?, isEdge c = false := by
      intro c hc
      obtain rfl : 'b' = c := Option.some.inj hc
      decide
    have hContained : IsContained "a b" :=
      ⟨by decide, by decide, by decide, hEnding, by rw [isDots_iff]; decide, by decide⟩
    exact (hBelow "a b").1.imp fun u h => h.mpr hContained
  · have hEscapes : ¬ IsContained "../collect" := fun h =>
      absurd (h.whole '/' (by decide)) (by decide)
    exact (hBelow "../collect").2.2.1.imp fun u h => fun hUrl => hEscapes (h.mp hUrl)

end RemoteSigning.RelyingParty
