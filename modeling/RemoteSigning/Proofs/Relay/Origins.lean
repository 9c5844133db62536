import RemoteSigning.Proofs.Lists
import RemoteSigning.Proofs.Results
import RemoteSigning.Relay.Router
import Mathlib.Data.Fintype.EquivFin
import Mathlib.Tactic.Ring

/-!
# Origins

A response lets pages of an origin in only as the rule of the router for origins says, and no request
changes the rule. A list of origins with entries is enforced; without any, every origin is let in.
-/

namespace RemoteSigning.Relay

open Text Items

variable {r : Request} {response : Response} {router : Router} {origin : String} {cors : Cors}
  {list : List String}

/-- Whether a response lets pages of an origin in. -/
def Response.LetsIn (response : Response) (origin : String) : Prop :=
  ("access-control-allow-origin", origin) ∈ response.headers

/-- Whether the fields of a response say nothing but what its body is. -/
def Response.IsBare (response : Response) : Prop :=
  ∀ field ∈ response.headers, field.1 = "content-type"

/-- An answer of the relay itself lets nobody in. -/
theorem isBare_plain (status : Nat) (body : String) : (Response.plain status body).IsBare :=
  List.forall_mem_singleton.mpr rfl

theorem isBare_json (status : Nat) (body : String) : (Response.json status body).IsBare :=
  List.forall_mem_singleton.mpr rfl

/-- Neither does one that refuses a socket. -/
theorem isBare_of_checkUpgrade (h : checkUpgrade r = .error response) : response.IsBare := by
  unfold checkUpgrade at h
  split_ifs at h <;> first | exact Except.error.inj h ▸ isBare_plain _ _ | cases h

/-- Nor does one that refuses a room. -/
theorem isBare_of_requestedRoom {segment : String} (h : requestedRoom segment r = .error response) :
    response.IsBare := by
  unfold requestedRoom at h
  split at h
  · next id _ =>
    cases hChecked : checkRoomId id with
    | error e =>
      rw [hChecked] at h
      exact Except.error.inj h ▸ isBare_json _ _
    | ok =>
      cases hUpgrade : checkUpgrade r with
      | error refusal =>
        rw [hChecked, hUpgrade] at h
        exact Except.error.inj h ▸ isBare_of_checkUpgrade hUpgrade
      | ok =>
        rw [hChecked, hUpgrade] at h
        cases h
  · exact Except.error.inj h ▸ isBare_plain _ _

/-- What a route answers says nothing of origins. -/
theorem isBare_respond (route : Route) (rooms : Nat) (r : Request) :
    (route.respond rooms r).IsBare := by
  unfold Route.respond
  cases route with
  | nowhere => exact isBare_json _ _
  | health | ready =>
    dsimp only
    split_ifs
    · exact List.forall_mem_nil _
    · exact isBare_json _ _
  | room segment =>
    dsimp only
    split_ifs
    · exact List.forall_mem_nil _
    · cases hRequested : requestedRoom segment r with
      | ok => exact isBare_plain _ _
      | error refusal => exact isBare_of_requestedRoom hRequested

/-- An origin is named only if any is, or if it is listed and has asked. -/
theorem mem_allowOrigin_iff :
    ("access-control-allow-origin", origin) ∈ cors.allowOrigin r ↔
      cors = .anyOrigin ∧ origin = Cors.wildcard ∨
        ∃ origins, cors = .only origins ∧ origin ∈ origins ∧ r.header? "origin" = some origin := by
  cases cors with
  | anyOrigin => simp [Cors.allowOrigin]
  | only origins =>
    rw [Cors.allowOrigin]
    cases hOrigin : r.header? "origin" with
    | none => simp
    | some value =>
      simp only [List.contains_iff_mem]
      split_ifs with hListed
      · simp only [List.mem_singleton, Prod.mk.injEq, true_and]
        constructor
        · rintro rfl
          exact .inr ⟨origins, rfl, hListed, rfl⟩
        · rintro (⟨hAny, -⟩ | ⟨-, -, -, hSame⟩)
          · cases hAny
          · exact (Option.some.inj hSame).symm
      · simp only [List.not_mem_nil, false_iff, not_or]
        refine ⟨fun h => h.1.elim, ?_⟩
        rintro ⟨_, hSame, hMem, hValue⟩
        obtain rfl := Cors.only.inj hSame
        obtain rfl := Option.some.inj hValue
        exact hListed hMem

/-- A response lets an origin in exactly if the rule does. -/
theorem letsIn_respond :
    (router.respond r).LetsIn origin ↔
      ("access-control-allow-origin", origin) ∈ router.cors.allowOrigin r := by
  have hApplied : (router.cors.apply ((Route.ofPath r.path).respond router.rooms) r).LetsIn origin ↔
      ("access-control-allow-origin", origin) ∈ router.cors.allowOrigin r := by
    rw [Cors.apply]
    split_ifs
    · cases router.cors <;> simp [Response.LetsIn, Cors.allowRequests, Cors.vary]
    · have hBare : ("access-control-allow-origin", origin) ∉
          ((Route.ofPath r.path).respond router.rooms r).headers := fun hMem =>
        absurd (isBare_respond _ _ _ _ hMem)
          (show "access-control-allow-origin" ≠ "content-type" by decide)
      simp [Response.LetsIn, Cors.vary, hBare]
  rw [← hApplied, Router.respond, withoutBody, withAllow]
  split_ifs <;> simp [Response.LetsIn, allow]

/-- A router after requests, each with the instant at which it has come. -/
def Router.run (router : Router) (requests : List (Nat × Request)) : Router :=
  requests.foldl (fun router request => (router.handle request.1 request.2).2) router

/-- No request changes which origins are let in. -/
theorem cors_handle (router : Router) (now : Nat) (r : Request) :
    (router.handle now r).2.cors = router.cors := by
  unfold Router.handle
  split
  · rfl
  · split <;> rfl

/-- No request changes the rule. -/
theorem cors_run (router : Router) (requests : List (Nat × Request)) :
    (router.run requests).cors = router.cors := by
  induction requests generalizing router with
  | nil => rfl
  | cons request requests ih => exact (ih _).trans (cors_handle ..)

/-- A refusal for too many requests lets nobody in. -/
theorem headers_of_accept {l : Limiter} {client : Option Address} {now : Nat}
    (h : l.accept client now = .error response) : response.headers = [] := by
  unfold Limiter.accept at h
  split at h
  · exact Except.error.inj h ▸ rfl
  · dsimp only at h
    split_ifs at h
    exact Except.error.inj h ▸ rfl

/-- Without a limit, every request is responded to. -/
theorem handle_of_unlimited (h : router.limiter = none) (now : Nat) (r : Request) :
    (router.handle now r).1 = router.respond r := by
  rw [Router.handle, h]

/-- A request within the limit is responded to. -/
theorem handle_of_accepted {l l' : Limiter} {now : Nat} (h : router.limiter = some l)
    (hAccepted : l.accept r.client now = .ok l') : (router.handle now r).1 = router.respond r := by
  simp only [Router.handle, h, hAccepted]

/-- Whoever is let in has been named for the request. -/
theorem mem_allowOrigin_of_handle {now : Nat} (h : (router.handle now r).1.LetsIn origin) :
    ("access-control-allow-origin", origin) ∈ router.cors.allowOrigin r := by
  unfold Router.handle at h
  split at h
  · exact letsIn_respond.mp h
  · split at h
    · exact letsIn_respond.mp h
    · next refusal hRefused =>
      rw [Response.LetsIn, headers_of_accept hRefused] at h
      cases h

/-- The entries of a list that a header can hold. -/
def headerEntries (list : List String) : List String :=
  list.filter (·.toList.all Cors.isFieldCharacter)

/-- The rule for a list with entries. -/
theorem ofSetting_some (hSome : list ≠ []) :
    Cors.ofSetting (some list) =
      if Cors.wildcard ∈ list then none else some (.only (headerEntries list)) := by
  obtain ⟨first, rest, rfl⟩ := List.exists_cons_of_ne_nil hSome
  have hWildcard : (headerEntries (first :: rest)).contains Cors.wildcard = true ↔
      Cors.wildcard ∈ first :: rest := by
    rw [List.contains_iff_mem, headerEntries, List.mem_filter]
    exact and_iff_left (by decide)
  rw [← if_congr hWildcard rfl rfl]
  rfl

/-- A router is made of a setting exactly if the origins can be listed and the limit can be counted.
-/
theorem ofConfig?_eq_some_iff {c : Config} {rooms : Nat} :
    Router.ofConfig? c rooms = some router ↔
      ∃ cors, Cors.ofSetting c.allowedOrigins = some cors ∧
        (Limiter.ofConfig? c).all Limiter.isCountable ∧
        router = { cors, limiter := Limiter.ofConfig? c, rooms } := by
  rw [Router.ofConfig?]
  cases Cors.ofSetting c.allowedOrigins with
  | none => simp
  | some cors =>
    cases hLimits : (Limiter.ofConfig? c).all Limiter.isCountable <;>
      simp [hLimits, guard, failure, eq_comm]

/-- Limits can be counted unless a whole burst takes too many nanoseconds; limits of zero can. -/
theorem all_isCountable_iff {c : Config} :
    (Limiter.ofConfig? c).all Limiter.isCountable = true ↔
      (c.rateLimitEnabled = true →
        c.rateLimitPerSecond * c.rateLimitBurst * 10 ^ 9 < 2 ^ 64) := by
  rw [Limiter.ofConfig?]
  split_ifs with hLimits
  · obtain ⟨hEnabled, -⟩ := hLimits
    have hTime : c.rateLimitPerSecond * 1000 * 1000000 * c.rateLimitBurst =
        c.rateLimitPerSecond * c.rateLimitBurst * 10 ^ 9 := by
      ring
    rw [Option.all_some, Limiter.isCountable, decide_eq_true_iff, hTime]
    exact ⟨fun h _ => h, fun h => h hEnabled⟩
  · refine iff_of_true rfl fun hEnabled => ?_
    have hZero : c.rateLimitPerSecond * c.rateLimitBurst = 0 := by
      rw [Nat.mul_eq_zero]
      by_contra hNone
      exact hLimits ⟨hEnabled, fun h => hNone (.inl h), fun h => hNone (.inr h)⟩
    rw [hZero, Nat.zero_mul]
    exact Nat.two_pow_pos 64

/-- There is a rule for every setting but a list with the wildcard. -/
theorem exists_ofSetting_iff {setting : Option (List String)} :
    (∃ cors, Cors.ofSetting setting = some cors) ↔ ∀ list ∈ setting, Cors.wildcard ∉ list := by
  cases setting with
  | none => exact iff_of_true ⟨_, rfl⟩ (by simp)
  | some list =>
    by_cases hSome : list = []
    · subst hSome
      exact iff_of_true ⟨_, rfl⟩ (by simp)
    · rw [ofSetting_some hSome]
      split_ifs with hListed <;> simp [hListed]

/-- When a relay starts. -/
theorem exists_ofConfig?_iff {c : Config} {rooms : Nat} :
    (∃ router, Router.ofConfig? c rooms = some router) ↔
      (∀ list ∈ c.allowedOrigins, "*" ∉ list) ∧
        (c.rateLimitEnabled = true →
          c.rateLimitPerSecond * c.rateLimitBurst * 10 ^ 9 < 2 ^ 64) := by
  have hRule : (∃ cors, Cors.ofSetting c.allowedOrigins = some cors) ↔
      ∀ list ∈ c.allowedOrigins, "*" ∉ list := exists_ofSetting_iff
  rw [← hRule, ← all_isCountable_iff]
  constructor
  · rintro ⟨router, hRouter⟩
    obtain ⟨cors, hCors, hLimits, -⟩ := ofConfig?_eq_some_iff.mp hRouter
    exact ⟨⟨cors, hCors⟩, hLimits⟩
  · rintro ⟨⟨cors, hCors⟩, hLimits⟩
    exact ⟨_, ofConfig?_eq_some_iff.mpr ⟨cors, hCors, hLimits, rfl⟩⟩

theorem cors_of_ofConfig? {c : Config} {rooms : Nat} (h : Router.ofConfig? c rooms = some router) :
    Cors.ofSetting c.allowedOrigins = some router.cors ∧ router.limiter = Limiter.ofConfig? c := by
  obtain ⟨cors, hCors, -, rfl⟩ := ofConfig?_eq_some_iff.mp h
  exact ⟨hCors, rfl⟩

/-- The rule of a router for a list with entries. -/
theorem cors_of_entries {c : Config} {rooms : Nat} (hSet : c.allowedOrigins = some list)
    (hSome : list ≠ []) (hRouter : Router.ofConfig? c rooms = some router) :
    router.cors = .only (headerEntries list) := by
  have hCors := (cors_of_ofConfig? hRouter).1
  rw [hSet, ofSetting_some hSome] at hCors
  split_ifs at hCors
  exact (Option.some.inj hCors).symm

/-- Whether a router lets in every origin: some request from there may come at some time so that its
response does. -/
def Router.LetsInEvery (router : Router) : Prop :=
  ∀ origin, ∃ requests now r value, r.header? "origin" = some origin ∧
    ((router.run requests).handle now r).1.LetsIn value

/-- Whether a router enforces a list of origins: after any requests, a response lets in nothing but the
origin of its own request, and that only if it is in the list. -/
def Router.Enforces (router : Router) (list : List String) : Prop :=
  ∀ requests now r origin, ((router.run requests).handle now r).1.LetsIn origin →
    origin ∈ list ∧ r.header? "origin" = some origin

/-- Whoever is let in by a list is in it, and is where the request comes from. -/
theorem mem_of_letsIn {requests : List (Nat × Request)} {now : Nat}
    (hCors : router.cors = .only (headerEntries list))
    (h : ((router.run requests).handle now r).1.LetsIn origin) :
    origin ∈ list ∧ r.header? "origin" = some origin := by
  have hMem := mem_allowOrigin_of_handle h
  rw [cors_run, hCors, mem_allowOrigin_iff] at hMem
  obtain ⟨hAny, -⟩ | ⟨origins, hSame, hMem, hValue⟩ := hMem
  · cases hAny
  · obtain rfl := Cors.only.inj hSame
    exact ⟨List.mem_of_mem_filter hMem, hValue⟩

/-- A request from some page of an origin. -/
def pageRequest (origin : String) : Request :=
  { method := "GET", target := "/ready", headers := [("origin", origin)], client := some .loopback }

/-- The first request is within the limits. -/
theorem accept_first {c : Config} {l : Limiter} (h : Limiter.ofConfig? c = some l)
    (client : Address) : ∃ l', l.accept (some client) 0 = .ok l' := by
  rw [Limiter.ofConfig?] at h
  split_ifs at h with hLimits
  obtain rfl := Option.some.inj h
  have hBurst : 1 ≤ c.rateLimitBurst := Nat.one_le_iff_ne_zero.mpr hLimits.2.2
  have hFirst : c.rateLimitPerSecond * 1000 ≤ c.rateLimitPerSecond * 1000 * c.rateLimitBurst :=
    Nat.le_mul_of_pos_right _ hBurst
  refine ⟨_, if_neg ?_⟩
  simp only [Limiter.earliest, Limiter.horizon, List.lookup_nil, Option.getD_none]
  omega

/-- A router that names any origin lets in every one. -/
theorem letsInEvery_of_anyOrigin {c : Config} (hCors : router.cors = .anyOrigin)
    (hLimiter : router.limiter = Limiter.ofConfig? c) : router.LetsInEvery := by
  intro origin
  refine ⟨[], 0, pageRequest origin, Cors.wildcard, rfl, ?_⟩
  have hLetsIn : (router.respond (pageRequest origin)).LetsIn Cors.wildcard :=
    letsIn_respond.mpr (mem_allowOrigin_iff.mpr (.inl ⟨hCors, rfl⟩))
  have hAnswer : (router.handle 0 (pageRequest origin)).1 = router.respond (pageRequest origin) := by
    cases hLimits : router.limiter with
    | none => exact handle_of_unlimited hLimits _ _
    | some l =>
      obtain ⟨l', hAccepted⟩ := accept_first (hLimiter.symm.trans hLimits) .loopback
      exact handle_of_accepted hLimits hAccepted
  rw [Router.run, List.foldl_nil, hAnswer]
  exact hLetsIn

/-- A text that is blank throughout is nothing when it is trimmed. -/
theorem trim_eq_empty_iff {text : String} :
    trim text = "" ↔ ∀ c ∈ text.toList, isBlank c = true := by
  rw [trim, String.ofList_eq_empty_iff, trimRight, List.reverse_eq_nil_iff, List.dropWhile_eq_nil_iff,
    trimLeft]
  simp only [List.mem_reverse]
  refine ⟨fun h => ?_, fun h c hc => h c (List.dropWhile_subset _ hc)⟩
  rw [← List.takeWhile_append_dropWhile (p := isBlank) (l := text.toList)]
  exact List.forall_mem_append.mpr ⟨fun c hc => List.mem_takeWhile_imp hc, h⟩

/-- A text has no part that counts exactly if there is nothing in it but commas and white space. -/
theorem parts_eq_nil_iff {text : String} :
    Config.parts text = [] ↔ ∀ c ∈ text.toList, c = ',' ∨ isBlank c = true := by
  simp only [Config.parts, List.filter_eq_nil_iff, List.forall_mem_map, bne_iff_ne, ne_eq, not_not,
    trim_eq_empty_iff, String.toList_ofList]
  constructor
  · intro h c hc
    have hJoined : [','].intercalate (text.toList.splitOn ',') = text.toList :=
      List.intercalate_splitOn ','
    rw [← hJoined] at hc
    obtain hSign | ⟨part, hPart, hMem⟩ := mem_intercalate hc
    · exact .inl (List.mem_singleton.mp hSign)
    · exact .inr (h part hPart c hMem)
  · intro h part hPart c hc
    obtain ⟨hMem, hOther⟩ := of_mem_splitOnP hPart hc
    exact (h c hMem).resolve_left (ne_of_beq_false hOther)

/-- A router lets in every origin exactly if no origins are set or their list is empty. -/
theorem letsInEvery_iff {c : Config} {rooms : Nat} (hRouter : Router.ofConfig? c rooms = some router) :
    router.LetsInEvery ↔ c.allowedOrigins = none ∨ c.allowedOrigins = some [] := by
  refine ⟨fun hEvery => ?_, fun hOpen => ?_⟩
  · cases hSet : c.allowedOrigins with
    | none => exact .inl rfl
    | some list =>
      refine .inr (congrArg some ?_)
      by_contra hSome
      -- No list has all texts, so there is an origin that it does not let in.
      obtain ⟨origin, hOther⟩ := Infinite.exists_notMem_finset list.toFinset
      obtain ⟨requests, now, r, value, hOrigin, hLetsIn⟩ := hEvery origin
      obtain ⟨hMem, hValue⟩ := mem_of_letsIn (cors_of_entries hSet hSome hRouter) hLetsIn
      obtain rfl := Option.some.inj (hOrigin.symm.trans hValue)
      exact hOther (List.mem_toFinset.mpr hMem)
  · obtain ⟨hCors, hLimiter⟩ := cors_of_ofConfig? hRouter
    refine letsInEvery_of_anyOrigin ?_ hLimiter
    obtain hSet | hSet := hOpen <;> rw [hSet] at hCors <;> exact (Option.some.inj hCors).symm

/-- A router enforces the list that it is built with exactly if there are entries in it. -/
theorem enforces_iff {c : Config} {rooms : Nat} (hSet : c.allowedOrigins = some list)
    (hRouter : Router.ofConfig? c rooms = some router) : router.Enforces list ↔ list ≠ [] := by
  refine ⟨fun hEnforces hNone => ?_, fun hSome requests now r origin =>
    mem_of_letsIn (cors_of_entries hSet hSome hRouter)⟩
  subst hNone
  obtain ⟨requests, now, r, value, -, hLetsIn⟩ := (letsInEvery_iff hRouter).mpr (.inr hSet) ""
  exact List.not_mem_nil (hEnforces requests now r value hLetsIn).1

/-- There is a router exactly if the wildcard is not in the list of origins and, if requests are
limited, a whole burst takes no more nanoseconds than can be counted. It enforces its list exactly if
that has entries, and a request within the limits is let in from each of them that a header can hold.
Every origin is let in exactly if no origins are set or their list is empty. An environment sets an
empty list exactly if there is nothing but commas and white space in its variable. -/
theorem configured_origins_are_enforced (c : Config) (rooms : Nat) :
    ((∃ router, Router.ofConfig? c rooms = some router) ↔
      (∀ list ∈ c.allowedOrigins, "*" ∉ list) ∧
        (c.rateLimitEnabled = true →
          c.rateLimitPerSecond * c.rateLimitBurst * 10 ^ 9 < 2 ^ 64)) ∧
    (∀ router, Router.ofConfig? c rooms = some router →
      (∀ list, c.allowedOrigins = some list →
        (router.Enforces list ↔ list ≠ []) ∧
        ∀ r origin, origin ∈ list → origin.toList.all Cors.isFieldCharacter = true →
          r.header? "origin" = some origin → (router.respond r).LetsIn origin) ∧
      (router.LetsInEvery ↔ c.allowedOrigins = none ∨ c.allowedOrigins = some [])) ∧
    ∀ env : Environment, (Config.ofEnvironment env).allowedOrigins = some [] ↔
      ∃ text, env.lookup "ALLOWED_ORIGINS" = some text ∧
        ∀ c ∈ text.toList, c = ',' ∨ isBlank c = true := by
  refine ⟨exists_ofConfig?_iff, fun router hRouter => ⟨fun list hSet =>
    ⟨enforces_iff hSet hRouter, fun r origin hMem hHeld hOrigin => ?_⟩, letsInEvery_iff hRouter⟩,
    fun env => ?_⟩
  · have hCors := cors_of_entries hSet (List.ne_nil_of_mem hMem) hRouter
    rw [letsIn_respond, mem_allowOrigin_iff]
    exact .inr ⟨_, hCors, List.mem_filter.mpr ⟨hMem, hHeld⟩, hOrigin⟩
  · change (env.lookup "ALLOWED_ORIGINS").map Config.parts = some [] ↔ _
    simp only [Option.map_eq_some_iff, parts_eq_nil_iff]

/-- A relay that is to let every origin in by its name does not start, -/
example : Router.ofConfig? { allowedOrigins := some ["*"] } 0 = none := by decide

/-- and neither does one with a limit of one request in a thousand million seconds. -/
example : Router.ofConfig? { rateLimitEnabled := true, rateLimitPerSecond := 1000000000 } 0 = none := by
  decide

/-- Settings with one origin. -/
def strictConfig : Config := { allowedOrigins := some ["https://rp.example.com"] }

/-- A router with one origin. -/
def strictRouter : Router := { cors := .only ["https://rp.example.com"], limiter := none, rooms := 0 }

/-- With one origin set, pages from there are let in and pages from elsewhere are not. -/
theorem strictRouter_keeps_strangers_out :
    Router.ofConfig? strictConfig 0 = some strictRouter ∧
      (strictRouter.handle 0 (pageRequest "https://rp.example.com")).1.LetsIn
        "https://rp.example.com" ∧
      ¬ (strictRouter.handle 0 (pageRequest "https://evil.example")).1.LetsIn "*" ∧
      ¬ (strictRouter.handle 0 (pageRequest "https://evil.example")).1.LetsIn
        "https://evil.example" ∧
      ¬ strictRouter.LetsInEvery := by
  have hRouter : Router.ofConfig? strictConfig 0 = some strictRouter := by decide
  obtain ⟨hStrict, hEvery⟩ := (configured_origins_are_enforced strictConfig 0).2.1 strictRouter hRouter
  obtain ⟨hEnforces, hAdmits⟩ := hStrict _ rfl
  have hOnly := hEnforces.mpr (List.cons_ne_nil _ _) [] 0 (pageRequest "https://evil.example")
  refine ⟨hRouter, ?_, fun h => ?_, fun h => ?_, fun h => ?_⟩
  · rw [handle_of_unlimited rfl]
    exact hAdmits (pageRequest _) "https://rp.example.com" (by decide) (by decide) rfl
  · exact absurd (hOnly "*" h).1 (by decide)
  · exact absurd (hOnly "https://evil.example" h).1 (by decide)
  · exact absurd (hEvery.mp h) (by decide)

/-- Settings with an empty list of origins. -/
def emptyConfig : Config := { allowedOrigins := some [] }

/-- A router with an empty list of origins. -/
def openRouter : Router := { cors := .anyOrigin, limiter := none, rooms := 0 }

/-- With an empty list, a page is let in although its origin is not in the list. -/
theorem emptyConfig_lets_strangers_in :
    Router.ofConfig? emptyConfig 0 = some openRouter ∧
      (openRouter.handle 0 (pageRequest "https://evil.example")).1.LetsIn "*" ∧
      ¬ "https://evil.example" ∈ emptyConfig.allowedOrigins.getD [] := by
  refine ⟨rfl, ?_, List.not_mem_nil⟩
  rw [handle_of_unlimited rfl, letsIn_respond, mem_allowOrigin_iff]
  exact .inl ⟨rfl, rfl⟩

end RemoteSigning.Relay
