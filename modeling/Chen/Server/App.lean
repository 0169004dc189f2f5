import Chen.Server.Auth

/-!
# The application

`create_app` adds four middlewares around the router. The one that is added last is called first,
so that a request meets authentication before it meets the limiter.
-/

namespace Chen

/-- A key whose fields the limiter can read. -/
class LimitedKey (K : Type) extends HasRole K where
  apiKey : K → APIKey

instance : LimitedKey AuthKey where
  apiKey := AuthKey.toAPIKey

/-- A scope, and what the clock shows when it is handled. -/
structure Request (K : Type) where
  scope : HttpScope K
  now : ℚ

structure Response where
  status : ℕ
  headers : List (String × String)
  body : String
deriving DecidableEq

/-- What the middlewares keep between requests, and what the router and the CORS middleware do. -/
structure AppState (ρ : Type) where
  limiter : RateLimitMiddleware
  /-- What `record_request` has counted: method, route and status of each. -/
  recorded : List (String × String × ℕ) := []
  rest : ρ

/-- An ASGI application, called with one request after the other. -/
abbrev Asgi (ρ K : Type) : Type :=
  AppState ρ → Request K → Except Exn Response × AppState ρ

/-- What comes of a request that was handled in the state `s`, where `app` is what comes of it if it
is forwarded. -/
def Handled.result {ρ : Type} (s : AppState ρ) (app : Except Exn Response × AppState ρ) :
    Handled → Except Exn Response × AppState ρ
  | .forwarded => app
  | .answered status headers body => (.ok { status, headers, body }, s)
  | .raised x => (.error x, s)

/-- The scope as the limiter reads it. -/
def HttpScope.limited {K : Type} [LimitedKey K] (scope : HttpScope K) : Scope where
  type := scope.type
  client := scope.client
  auth := scope.auth.map LimitedKey.apiKey

namespace Asgi

variable {ρ K : Type} [LimitedKey K]

/-- `AuthMiddleware(app, key_store)`. -/
def auth (store : APIKeyStore K) (app : Asgi ρ K) : Asgi ρ K := fun s r =>
  match AuthMiddleware.call store r.scope with
  | .ok scope => app s { r with scope }
  | .error h => h.result s (app s r)

/-- `RateLimitMiddleware(app)`. -/
def rateLimit (app : Asgi ρ K) : Asgi ρ K := fun s r =>
  let (h, limiter) := s.limiter.call ⟨r.scope.limited, r.now⟩
  let s' := { s with limiter }
  h.result s' (app s' r)

/-- `_metrics_middleware`, but for the latencies. -/
def metrics (app : Asgi ρ K) : Asgi ρ K := fun s r =>
  if r.scope.type ≠ "http" then app s r
  else
    match app s r with
    | (.ok response, s') =>
      let recorded := s'.recorded ++ [(r.scope.method, r.scope.path, response.status)]
      (.ok response, { s' with recorded })
    | (.error x, s') => (.error x, s')

/-- The application with the middlewares in the order in which they were added: each is put around
those before it. -/
def build (router : Asgi ρ K) (added : List (Asgi ρ K → Asgi ρ K)) : Asgi ρ K :=
  added.foldl (fun app middleware => middleware app) router

end Asgi

section

variable {ρ K : Type} [LimitedKey K]

/-- `create_app`, for a CORS middleware and a router. -/
def createApp (cors : Asgi ρ K → Asgi ρ K) (router : Asgi ρ K) (store : APIKeyStore K) : Asgi ρ K :=
  Asgi.build router [cors, Asgi.rateLimit, Asgi.auth store, Asgi.metrics]

/-- The state of a new application, where `CHEN_RATE_LIMIT_PER_MINUTE` is `limit`. -/
def AppState.new (limit : ℤ) (rest : ρ) : AppState ρ where
  limiter := { defaultLimit := limit }
  rest := rest

/-- A 429. Of an exception the server makes a 500. -/
def IsLimited (result : Except Exn Response) : Prop :=
  ∃ response, result = .ok response ∧ response.status = 429

instance : DecidablePred IsLimited
  | .ok response =>
    if h : response.status = 429 then isTrue ⟨response, rfl, h⟩
    else isFalse fun ⟨_, heq, h'⟩ => h (by cases heq; exact h')
  | .error _ => isFalse fun ⟨_, heq, _⟩ => by cases heq

/-- In 60 seconds at most `limit` requests get something else than a 429. -/
def RateLimited (limit : ℤ) (results : List (Request K × Except Exn Response)) : Prop :=
  ∀ a : ℚ, (results.countP fun x => a ≤ x.1.now ∧ x.1.now ≤ a + 60 ∧ ¬IsLimited x.2 : ℤ) ≤ limit

/-- A request of a client that has to present a key and does not. -/
structure Unauthenticated (store : APIKeyStore K) (host : String) (r : Request K) : Prop where
  http : r.scope.type = "http"
  path : r.scope.path ∉ publicPaths
  client : r.scope.client = some (some host)
  key : AuthMiddleware.presented store r.scope = none

omit [LimitedKey K] in
/-- A request without headers presents nothing. -/
theorem unauthenticated_of_no_headers {store : APIKeyStore K} {path : String}
    (hpath : path ∉ publicPaths) (host : String) (now : ℚ) :
    Unauthenticated store host ⟨{ path, client := some (some host) }, now⟩ := by
  refine ⟨rfl, hpath, rfl, ?_⟩
  have hbearer : HttpScope.bearer (K := K) { path, client := some (some host) } = none := by
    simp [HttpScope.bearer, HttpScope.header, HttpScope.decodeAscii, Dict.get?]
  rw [AuthMiddleware.presented, hbearer]
  rfl

namespace Asgi

variable {store : APIKeyStore K} {host : String} {r : Request K}

/-- Such a request is answered before anything else sees it. -/
theorem auth_of_unauthenticated (hkeys : store.hasKeys = true)
    (h : Unauthenticated store host r) (app : Asgi ρ K) (s : AppState ρ) :
    ∃ response, auth store app s r = (.ok response, s) ∧ response.status = 401 := by
  obtain ⟨message, hcall⟩ :=
    AuthMiddleware.call_of_not_presented ⟨h.http, h.path, hkeys⟩ h.key
  unfold auth
  rw [hcall]
  exact ⟨_, rfl, rfl⟩

omit [LimitedKey K] in
/-- The metrics change no answer, and leave the limiter alone. -/
theorem metrics_spec (app : Asgi ρ K) (s : AppState ρ) (r : Request K) :
    (metrics app s r).1 = (app s r).1 ∧ (metrics app s r).2.limiter = (app s r).2.limiter := by
  unfold metrics
  split
  · exact ⟨rfl, rfl⟩
  · split
    · next happ => rw [happ]; exact ⟨rfl, rfl⟩
    · next happ => rw [happ]; exact ⟨rfl, rfl⟩

end Asgi

section Unauthenticated

variable {store : APIKeyStore K} {host : String} {cors : Asgi ρ K → Asgi ρ K} {router : Asgi ρ K}

/-- The limiter neither answers such a request nor hears of it. -/
theorem createApp_of_unauthenticated (hkeys : store.hasKeys = true) {r : Request K}
    (h : Unauthenticated store host r) (cors : Asgi ρ K → Asgi ρ K) (router : Asgi ρ K)
    (s : AppState ρ) :
    ∃ response, (createApp cors router store s r).1 = .ok response ∧ response.status = 401 ∧
      (createApp cors router store s r).2.limiter = s.limiter := by
  obtain ⟨response, hauth, hstatus⟩ :=
    Asgi.auth_of_unauthenticated hkeys h (Asgi.rateLimit (cors router)) s
  obtain ⟨hresponse, hlimiter⟩ :=
    Asgi.metrics_spec (Asgi.auth store (Asgi.rateLimit (cors router))) s r
  rw [hauth] at hresponse hlimiter
  exact ⟨response, hresponse, hstatus, hlimiter⟩

/-- Behind authentication, no request without a key gets to the limiter. -/
theorem not_isLimited_of_unauthenticated (hkeys : store.hasKeys = true) {r : Request K}
    (h : Unauthenticated store host r) (cors : Asgi ρ K → Asgi ρ K) (router : Asgi ρ K)
    (s : AppState ρ) :
    ¬IsLimited (createApp cors router store s r).1 := by
  obtain ⟨response, hresponse, hstatus, -⟩ :=
    createApp_of_unauthenticated hkeys h cors router s
  rintro ⟨response', hresponse', hlimited⟩
  rw [hresponse] at hresponse'
  cases hresponse'
  omega

/-- Every such request counts as answered. -/
theorem countP_answers (hkeys : store.hasKeys = true) {reqs : List (Request K)}
    (h : ∀ r ∈ reqs, Unauthenticated store host r) (s : AppState ρ) (a : ℚ) :
    (Machine.answers (createApp cors router store) s reqs).countP
        (fun x => a ≤ x.1.now ∧ x.1.now ≤ a + 60 ∧ ¬IsLimited x.2) =
      reqs.countP fun r => a ≤ r.now ∧ r.now ≤ a + 60 := by
  induction reqs generalizing s with
  | nil => rfl
  | cons r reqs ih =>
    obtain ⟨hr, hreqs⟩ := List.forall_mem_cons.mp h
    have hserved := not_isLimited_of_unauthenticated hkeys hr cors router s
    rw [Machine.answers, List.countP_cons, List.countP_cons, ih hreqs]
    simp [hserved]

/-- The requests of a client without a key are limited if and only if there are not more of them in
any 60 seconds than the limit. -/
theorem unauthenticated_limited_iff (hkeys : store.hasKeys = true) {reqs : List (Request K)}
    (h : ∀ r ∈ reqs, Unauthenticated store host r) (limit : ℤ) (rest : ρ) :
    RateLimited limit (Machine.answers (createApp cors router store) (.new limit rest) reqs) ↔
      ∀ a : ℚ, (reqs.countP fun r => a ≤ r.now ∧ r.now ≤ a + 60 : ℤ) ≤ limit := by
  apply forall_congr'
  intro a
  rw [countP_answers hkeys h]

end Unauthenticated

/-! ## The limiter around authentication -/

section Reordered

variable {store : APIKeyStore K} {host : String} {r : Request K}

/-- A request without a key as the limiter sees it before authentication. -/
def Request.arriving (r : Request K) : Arriving := ⟨r.scope.limited, r.now⟩

/-- In front of it, such a request counts for its host. -/
theorem principal_arriving (h : Unauthenticated store host r) (hauth : r.scope.auth = none) :
    r.arriving.principal = some ("ip:" ++ host) := by
  unfold Arriving.principal
  rw [if_neg (by simp [Request.arriving, HttpScope.limited, h.http])]
  simp [Request.arriving, HttpScope.limited, Scope.keyId, h.client, hauth, Except.toOption]

/-- With the limiter outside, what it forwards gets a 401, and the rest a 429. -/
theorem rateLimit_auth (hkeys : store.hasKeys = true) (h : Unauthenticated store host r)
    (hauth : r.scope.auth = none) (app : Asgi ρ K) (s : AppState ρ) :
    (IsLimited (Asgi.rateLimit (Asgi.auth store app) s r).1 ↔
        (s.limiter.call r.arriving).1 ≠ .forwarded) ∧
      (Asgi.rateLimit (Asgi.auth store app) s r).2.limiter = (s.limiter.call r.arriving).2 := by
  have hcall := RateLimitMiddleware.call_of_principal (m := s.limiter) (principal_arriving h hauth)
  unfold Asgi.rateLimit
  rw [← Request.arriving, hcall]
  dsimp only
  split
  · refine ⟨iff_of_true ⟨_, rfl, rfl⟩ nofun, rfl⟩
  · obtain ⟨response, happ, hstatus⟩ := Asgi.auth_of_unauthenticated hkeys h app
      { s with limiter := _ }
    rw [Handled.result, happ]
    refine ⟨iff_of_false ?_ (by simp), rfl⟩
    rintro ⟨response', heq, hlimited⟩
    cases heq
    omega

/-- `create_app` with the limiter added after authentication. -/
def createAppLimited (cors : Asgi ρ K → Asgi ρ K) (router : Asgi ρ K) (store : APIKeyStore K) :
    Asgi ρ K :=
  Asgi.build router [cors, Asgi.auth store, Asgi.rateLimit, Asgi.metrics]

/-- There it is limited if its host has used up the window. -/
theorem createAppLimited_of_unauthenticated (hkeys : store.hasKeys = true)
    (h : Unauthenticated store host r) (hauth : r.scope.auth = none)
    (cors : Asgi ρ K → Asgi ρ K) (router : Asgi ρ K) (s : AppState ρ) :
    (IsLimited (createAppLimited cors router store s r).1 ↔
        (s.limiter.call r.arriving).1 ≠ .forwarded) ∧
      (createAppLimited cors router store s r).2.limiter = (s.limiter.call r.arriving).2 := by
  obtain ⟨hresponse, hlimiter⟩ :=
    Asgi.metrics_spec (Asgi.rateLimit (Asgi.auth store (cors router))) s r
  unfold createAppLimited Asgi.build
  simp only [List.foldl_cons, List.foldl_nil]
  rw [hresponse, hlimiter]
  exact rateLimit_auth hkeys h hauth (cors router) s

/-- The requests that are answered otherwise than by a 429 are those that the limiter forwards. -/
theorem countP_answers_limited (hkeys : store.hasKeys = true) {reqs : List (Request K)}
    (h : ∀ r ∈ reqs, Unauthenticated store host r ∧ r.scope.auth = none)
    (cors : Asgi ρ K → Asgi ρ K) (router : Asgi ρ K) (s : AppState ρ) (a : ℚ) :
    (Machine.answers (createAppLimited cors router store) s reqs).countP
        (fun x => a ≤ x.1.now ∧ x.1.now ≤ a + 60 ∧ ¬IsLimited x.2) =
      (forwardedTimes ("ip:" ++ host) (s.limiter.results (reqs.map Request.arriving))).countP
        fun t => a ≤ t ∧ t ≤ a + 60 := by
  induction reqs generalizing s with
  | nil => rfl
  | cons r reqs ih =>
    obtain ⟨⟨hr, hauth⟩, hreqs⟩ := List.forall_mem_cons.mp h
    obtain ⟨hlimited, hlimiter⟩ := createAppLimited_of_unauthenticated hkeys hr hauth cors router s
    have hprincipal := principal_arriving hr hauth
    have htimes : forwardedTimes ("ip:" ++ host)
          (s.limiter.results ((r :: reqs).map Request.arriving)) =
        forwardedTimes ("ip:" ++ host) [(r.arriving, (s.limiter.call r.arriving).1)] ++
          forwardedTimes ("ip:" ++ host)
            ((s.limiter.call r.arriving).2.results (reqs.map Request.arriving)) := by
      rw [forwardedTimes, forwardedTimes, forwardedTimes, ← List.map_append, ← List.filter_append]
      rfl
    rw [Machine.answers, List.countP_cons, ih hreqs, hlimiter, htimes, List.countP_append, add_comm]
    congr 1
    by_cases hforwarded : (s.limiter.call r.arriving).1 = .forwarded
    · have hnow : r.arriving.now = r.now := rfl
      simp [forwardedTimes, hprincipal, hforwarded, hlimited, hnow, List.countP_singleton]
    · simp [forwardedTimes, hforwarded, hlimited]

/-- With the limiter outside, requests without a key are limited. -/
theorem limited_of_limiter_outside (hkeys : store.hasKeys = true) {reqs : List (Request K)}
    (h : ∀ r ∈ reqs, Unauthenticated store host r ∧ r.scope.auth = none)
    (hsorted : reqs.Pairwise (·.now ≤ ·.now)) (cors : Asgi ρ K → Asgi ρ K) (router : Asgi ρ K)
    (limit : ℕ) (rest : ρ) :
    RateLimited limit
      (Machine.answers (createAppLimited cors router store) (.new limit rest) reqs) := by
  have hregular : RateLimitMiddleware.Regular limit (fun _ => limit)
      (reqs.map Request.arriving) := by
    refine ⟨List.pairwise_map.mpr hsorted, ?_⟩
    rw [List.forall_mem_map]
    intro r hr _ _
    simp [Request.arriving, HttpScope.limited, Scope.limit, (h r hr).2]
  intro a
  rw [countP_answers_limited hkeys h]
  exact_mod_cast hregular.countP_le ("ip:" ++ host) a

end Reordered

end

/-- A client that asks twice in a minute, where two requests are allowed. -/
theorem unauthenticated_limited_iff_two :
    let store := APIKeyStore.ofKeys [{ key := "k", createdAt := 0 }]
    let router : Asgi Unit AuthKey := fun s _ => (.ok ⟨200, [], ""⟩, s)
    let scope : HttpScope AuthKey := { path := "/v1/infer", client := some (some "10.0.0.1") }
    let reqs : List (Request AuthKey) := [⟨scope, 0⟩, ⟨scope, 30⟩]
    RateLimited 2 (Machine.answers (createApp id router store) (.new 2 ()) reqs) ↔
      ∀ a : ℚ, (reqs.countP fun r => a ≤ r.now ∧ r.now ≤ a + 60 : ℤ) ≤ 2 := by
  intro store router scope reqs
  have hr (t : ℚ) : Unauthenticated store "10.0.0.1" ⟨scope, t⟩ :=
    unauthenticated_of_no_headers (by decide) _ t
  have hreqs : ∀ r ∈ reqs, Unauthenticated store "10.0.0.1" r := by simp [reqs, hr]
  exact unauthenticated_limited_iff rfl hreqs 2 ()

/-- Where one request is allowed in a minute, two get a 401. -/
theorem unauthenticated_not_limited :
    ¬∀ (store : APIKeyStore AuthKey) (router : Asgi Unit AuthKey) (host : String) (limit : ℤ)
      (reqs : List (Request AuthKey)), store.hasKeys = true → reqs.Pairwise (·.now ≤ ·.now) →
        (∀ r ∈ reqs, Unauthenticated store host r) →
        RateLimited limit (Machine.answers (createApp id router store) (.new limit ()) reqs) := by
  intro h
  let store := APIKeyStore.ofKeys [{ key := "k", createdAt := 0 }]
  let scope : HttpScope AuthKey := { path := "/v1/infer", client := some (some "10.0.0.1") }
  have hr (t : ℚ) : Unauthenticated store "10.0.0.1" ⟨scope, t⟩ :=
    unauthenticated_of_no_headers (by decide) _ t
  have hreqs : ∀ r ∈ [(⟨scope, 0⟩ : Request AuthKey), ⟨scope, 30⟩],
      Unauthenticated store "10.0.0.1" r := by simp [hr]
  have hcount := h store (fun s _ => (.ok ⟨200, [], ""⟩, s)) "10.0.0.1" 1 _ rfl (by simp) hreqs 0
  rw [countP_answers rfl hreqs] at hcount
  revert hcount
  decide +kernel

end Chen
