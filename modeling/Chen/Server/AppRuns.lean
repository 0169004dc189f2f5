import Chen.Server.App

/-!
# Runs of the application

What a series of requests leaves in the application. The router sees the requests that
authentication and the limiter let through, in their order, and the metrics have every answer.
-/

namespace Chen

variable {ρ K : Type} [LimitedKey K]

/-- An application that changes nothing of what the other middlewares keep. -/
structure Confined (app : Asgi ρ K) (handle : ρ → Request K → ρ) : Prop where
  state : ∀ s r, (app s r).2 = { s with rest := handle s.rest r }

/-- The request that authentication forwards, with the key that it has found. -/
def AuthMiddleware.passed (store : APIKeyStore K) (r : Request K) : Option (Request K) :=
  (AuthMiddleware.call store r.scope).toOption.map fun scope => { r with scope }

/-- What the limiter does with a request. -/
def RateLimitMiddleware.callRequest (m : RateLimitMiddleware) (r : Request K) :
    Handled × RateLimitMiddleware :=
  m.call r.arriving

/-- The requests that get through both, with their keys. -/
def admitted (store : APIKeyStore K) (m : RateLimitMiddleware) (reqs : List (Request K)) :
    List (Request K) :=
  ((Machine.answers RateLimitMiddleware.callRequest m
    (reqs.filterMap (AuthMiddleware.passed store))).filter (·.2 = .forwarded)).map (·.1)

/-- What `record_request` counts for a request with this result. -/
def recordOf (x : Request K × Except Exn Response) : Option (String × String × ℕ) :=
  match x.2 with
  | .ok response =>
    if x.1.scope.type ≠ "http" then none
    else some (x.1.scope.method, x.1.scope.path, response.status)
  | .error _ => none

/-! ## One request -/

section Steps

variable {store : APIKeyStore K} {app : Asgi ρ K} {handle : ρ → Request K → ρ} {r q : Request K}

omit [LimitedKey K] in
/-- The metrics record an answer and leave the rest alone. -/
theorem Asgi.metrics_state (app : Asgi ρ K) (s : AppState ρ) (r : Request K) :
    (Asgi.metrics app s r).2 =
      { (app s r).2 with
        recorded := (app s r).2.recorded ++ (recordOf (r, (Asgi.metrics app s r).1)).toList } := by
  unfold Asgi.metrics
  split
  · next htype => cases (app s r).1 <;> simp [recordOf, htype]
  · next htype =>
    split
    · next happ => simp [recordOf, htype, happ]
    · next happ => simp [recordOf, happ]

/-- Authentication forwards the scope with a key or without, or answers with an error. -/
theorem AuthMiddleware.call_cases (store : APIKeyStore K) (scope : HttpScope K) :
    (∃ auth, AuthMiddleware.call store scope = .ok { scope with auth }) ∨
      ∃ status message,
        AuthMiddleware.call store scope = .error (AuthMiddleware.sendError status message) := by
  unfold AuthMiddleware.call
  split_ifs
  · exact .inl ⟨_, rfl⟩
  · exact .inl ⟨_, rfl⟩
  · split
    · exact .inr ⟨_, _, rfl⟩
    · split
      · exact .inr ⟨_, _, rfl⟩
      · dsimp only
        split_ifs
        · exact .inl ⟨_, rfl⟩
        · exact .inr ⟨_, _, rfl⟩
  · exact .inl ⟨_, rfl⟩

/-- A request that is refused reaches nothing. -/
theorem Asgi.auth_of_refused (h : AuthMiddleware.passed store r = none) (app : Asgi ρ K)
    (s : AppState ρ) : (Asgi.auth store app s r).2 = s := by
  unfold AuthMiddleware.passed at h
  unfold Asgi.auth
  obtain ⟨auth, hcall⟩ | ⟨status, message, hcall⟩ := AuthMiddleware.call_cases store r.scope
  · simp [hcall, Except.toOption] at h
  · rw [hcall]
    rfl

/-- A request that is authenticated goes on with its principal. -/
theorem Asgi.auth_of_passed (h : AuthMiddleware.passed store r = some q) (app : Asgi ρ K)
    (s : AppState ρ) : Asgi.auth store app s r = app s q := by
  unfold AuthMiddleware.passed at h
  unfold Asgi.auth
  cases hcall : AuthMiddleware.call store r.scope with
  | ok scope =>
    rw [hcall] at h
    cases h
    rfl
  | error => simp [hcall, Except.toOption] at h

/-- The limiter hears of every request, and what is behind it of those that it forwards. -/
theorem Asgi.rateLimit_state (happ : Confined app handle) (s : AppState ρ) (q : Request K) :
    (Asgi.rateLimit app s q).2 =
      { s with
        limiter := (s.limiter.callRequest q).2
        rest := if (s.limiter.callRequest q).1 = .forwarded then handle s.rest q else s.rest } := by
  unfold Asgi.rateLimit RateLimitMiddleware.callRequest Request.arriving
  obtain ⟨h, limiter⟩ := s.limiter.call ⟨q.scope.limited, q.now⟩
  cases h with
  | forwarded => exact happ.state _ q
  | answered => rfl
  | raised => rfl

variable {cors : Asgi ρ K → Asgi ρ K} {router : Asgi ρ K}

/-- After a refused request there is one more record. -/
theorem createApp_of_refused (h : AuthMiddleware.passed store r = none)
    (cors : Asgi ρ K → Asgi ρ K) (router : Asgi ρ K) (s : AppState ρ) :
    Machine.next (createApp cors router store) s r =
      { s with
        recorded := s.recorded ++ (recordOf (r, (createApp cors router store s r).1)).toList } := by
  rw [Machine.next, createApp, Asgi.build]
  simp only [List.foldl_cons, List.foldl_nil]
  rw [Asgi.metrics_state, Asgi.auth_of_refused h]

/-- It gets to the limiter and, if that forwards it, to the router. -/
theorem createApp_of_passed (happ : Confined (cors router) handle)
    (h : AuthMiddleware.passed store r = some q) (s : AppState ρ) :
    Machine.next (createApp cors router store) s r =
      { limiter := (s.limiter.callRequest q).2
        recorded := s.recorded ++ (recordOf (r, (createApp cors router store s r).1)).toList
        rest := if (s.limiter.callRequest q).1 = .forwarded then handle s.rest q else s.rest } := by
  rw [Machine.next, createApp, Asgi.build]
  simp only [List.foldl_cons, List.foldl_nil]
  rw [Asgi.metrics_state, Asgi.auth_of_passed h, Asgi.rateLimit_state happ]

/-- A request that is refused is not admitted. -/
theorem admitted_of_refused (h : AuthMiddleware.passed store r = none) (m : RateLimitMiddleware)
    (reqs : List (Request K)) : admitted store m (r :: reqs) = admitted store m reqs := by
  rw [admitted, List.filterMap_cons_none h, admitted]

/-- One that is authenticated is admitted if the limiter forwards it. -/
theorem admitted_of_passed (h : AuthMiddleware.passed store r = some q) (m : RateLimitMiddleware)
    (reqs : List (Request K)) :
    admitted store m (r :: reqs) =
      (if (m.callRequest q).1 = .forwarded then [q] else []) ++
        admitted store (m.callRequest q).2 reqs := by
  rw [admitted, List.filterMap_cons_some h, Machine.answers, List.filter_cons, admitted]
  by_cases hforwarded : (m.callRequest q).1 = .forwarded
  · simp [hforwarded]
  · simp [hforwarded]

end Steps

/-! ## What the router sees -/

section Admitted

variable {store : APIKeyStore K}

/-- What passes authentication where it has to be authenticated, has a key that allows it. -/
theorem AuthMiddleware.allowed_of_passed {r q : Request K}
    (hpassed : AuthMiddleware.passed store r = some q)
    (hguarded : AuthMiddleware.Guarded store q.scope) :
    ∃ key, AuthMiddleware.presented store q.scope = some key ∧ q.scope.auth = some key ∧
      AuthMiddleware.checkPermission (HasRole.role key) q.scope.path q.scope.method := by
  unfold AuthMiddleware.passed at hpassed
  obtain ⟨auth, hcall⟩ | ⟨status, message, hcall⟩ := AuthMiddleware.call_cases store r.scope
  · rw [hcall] at hpassed
    cases hpassed
    -- the scope that arrived is guarded as well, and presents the same
    have hguarded' : AuthMiddleware.Guarded store r.scope :=
      ⟨hguarded.http, hguarded.path, hguarded.keys⟩
    cases hkey : AuthMiddleware.presented store r.scope with
    | none =>
      obtain ⟨message, hrefused⟩ := AuthMiddleware.call_of_not_presented hguarded' hkey
      rw [hrefused] at hcall
      cases hcall
    | some key =>
      obtain ⟨hallowed, hscope⟩ := (AuthMiddleware.call_of_presented hguarded' hkey).mp hcall
      refine ⟨key, hkey, ?_, hallowed⟩
      rw [← hscope]
  · simp [hcall, Except.toOption] at hpassed

/-- Whoever is admitted was authenticated. -/
theorem passed_of_mem_admitted {m : RateLimitMiddleware} {reqs : List (Request K)} {q : Request K}
    (hq : q ∈ admitted store m reqs) : ∃ r ∈ reqs, AuthMiddleware.passed store r = some q := by
  induction reqs generalizing m with
  | nil => simp [admitted, Machine.answers] at hq
  | cons r reqs ih =>
    cases hpassed : AuthMiddleware.passed store r with
    | none =>
      rw [admitted_of_refused hpassed] at hq
      obtain ⟨r', hr', hq⟩ := ih hq
      exact ⟨r', List.mem_cons_of_mem _ hr', hq⟩
    | some q' =>
      rw [admitted_of_passed hpassed, List.mem_append] at hq
      rcases hq with hq | hq
      · have hq' : q = q' := by
          split at hq
          · exact List.mem_singleton.mp hq
          · cases hq
        exact ⟨r, List.mem_cons_self .., hq' ▸ hpassed⟩
      · obtain ⟨r', hr', hq⟩ := ih hq
        exact ⟨r', List.mem_cons_of_mem _ hr', hq⟩

/-- The requests of a principal that are admitted are those that the limiter forwards. -/
theorem countP_admitted (m : RateLimitMiddleware) (reqs : List (Request K)) (p : String) (a : ℚ) :
    (admitted store m reqs).countP
        (fun q => q.arriving.principal = some p ∧ a ≤ q.now ∧ q.now ≤ a + 60) =
      (forwardedTimes p (m.results ((reqs.filterMap (AuthMiddleware.passed store)).map
        Request.arriving))).countP fun t => a ≤ t ∧ t ≤ a + 60 := by
  unfold admitted
  generalize reqs.filterMap (AuthMiddleware.passed store) = passed
  induction passed generalizing m with
  | nil => rfl
  | cons q passed ih =>
    have htimes : forwardedTimes p (m.results ((q :: passed).map Request.arriving)) =
        forwardedTimes p [(q.arriving, (m.callRequest q).1)] ++
          forwardedTimes p ((m.callRequest q).2.results (passed.map Request.arriving)) := by
      rw [forwardedTimes, forwardedTimes, forwardedTimes, ← List.map_append, ← List.filter_append]
      rfl
    have hnow : q.arriving.now = q.now := rfl
    rw [Machine.answers, htimes, List.countP_append, ← ih, List.filter_cons, Nat.add_comm]
    by_cases hforwarded : (m.callRequest q).1 = .forwarded
    · by_cases hp : q.arriving.principal = some p
      · simp [forwardedTimes, hforwarded, hp, hnow, List.countP_cons]
      · simp [forwardedTimes, hforwarded, hp]
    · simp [forwardedTimes, hforwarded]

end Admitted

/-! ## All of them -/

section Runs

variable {store : APIKeyStore K} {cors : Asgi ρ K → Asgi ρ K} {router : Asgi ρ K}
  {handle : ρ → Request K → ρ}

/-- After any requests: the router has handled those that were admitted and no others, the limiter
has heard of those that were authenticated, and the metrics have each answer once. -/
theorem createApp_run (happ : Confined (cors router) handle) (s : AppState ρ)
    (reqs : List (Request K)) :
    Machine.run (Machine.next (createApp cors router store)) s reqs =
      { limiter := Machine.run (Machine.next RateLimitMiddleware.callRequest) s.limiter
          (reqs.filterMap (AuthMiddleware.passed store))
        recorded := s.recorded ++
          (Machine.answers (createApp cors router store) s reqs).filterMap recordOf
        rest := (admitted store s.limiter reqs).foldl handle s.rest } := by
  induction reqs generalizing s with
  | nil => simp [Machine.answers, admitted]
  | cons r reqs ih =>
    have hrecorded :
        (Machine.answers (createApp cors router store) s (r :: reqs)).filterMap recordOf =
          (recordOf (r, (createApp cors router store s r).1)).toList ++
            (Machine.answers (createApp cors router store)
              (Machine.next (createApp cors router store) s r) reqs).filterMap recordOf := by
      rw [Machine.answers, List.filterMap_cons, Machine.next]
      cases recordOf (r, (createApp cors router store s r).1) <;> rfl
    rw [Machine.run_cons, ih, hrecorded, ← List.append_assoc]
    cases hpassed : AuthMiddleware.passed store r with
    | none =>
      rw [createApp_of_refused hpassed, admitted_of_refused hpassed,
        List.filterMap_cons_none hpassed]
    | some q =>
      rw [createApp_of_passed happ hpassed, admitted_of_passed hpassed,
        List.filterMap_cons_some hpassed, Machine.run_cons, List.foldl_append]
      split <;> rfl

/-- A new application, over a run in which the authenticated requests are in order and each
principal has one limit: the router is left as by the admitted requests alone, each of which is
allowed by the key that it presents, no 60 seconds have more of a principal than its limit, and the
metrics have each answer once. -/
theorem createApp_serves (happ : Confined (cors router) handle) {defaultLimit : ℤ}
    {limit : String → ℕ} {reqs : List (Request K)}
    (hregular : RateLimitMiddleware.Regular defaultLimit limit
      ((reqs.filterMap (AuthMiddleware.passed store)).map Request.arriving)) (rest : ρ) :
    let s : AppState ρ := .new defaultLimit rest
    let s' := Machine.run (Machine.next (createApp cors router store)) s reqs
    s'.rest = (admitted store s.limiter reqs).foldl handle rest ∧
    s'.recorded = (Machine.answers (createApp cors router store) s reqs).filterMap recordOf ∧
    (∀ q ∈ admitted store s.limiter reqs, AuthMiddleware.Guarded store q.scope →
      ∃ key, AuthMiddleware.presented store q.scope = some key ∧ q.scope.auth = some key ∧
        AuthMiddleware.checkPermission (HasRole.role key) q.scope.path q.scope.method) ∧
    ∀ p a, (admitted store s.limiter reqs).countP
      (fun q => q.arriving.principal = some p ∧ a ≤ q.now ∧ q.now ≤ a + 60) ≤ limit p := by
  intro s s'
  have hrun : s' = _ := createApp_run happ s reqs
  refine ⟨by rw [hrun]; rfl, by rw [hrun]; rfl, ?_, ?_⟩
  · intro q hq hguarded
    obtain ⟨r, -, hpassed⟩ := passed_of_mem_admitted hq
    exact AuthMiddleware.allowed_of_passed hpassed hguarded
  · intro p a
    rw [countP_admitted]
    exact hregular.countP_le p a

end Runs

/-- A key for one request in a minute, two requests with it, and one without. -/
theorem createApp_serves_three :
    let store := APIKeyStore.ofKeys [{ key := "k", rateLimitPerMinute := 1, createdAt := 0 }]
    let handle : ℕ → Request AuthKey → ℕ := fun n _ => n + 1
    let router : Asgi ℕ AuthKey := fun s r =>
      (.ok ⟨200, [], ""⟩, { s with rest := handle s.rest r })
    let headers := [(Str.utf8 "authorization", Str.utf8 "Bearer k")]
    let scope : HttpScope AuthKey := { path := "/v1/infer", method := "POST", headers }
    let reqs : List (Request AuthKey) := [⟨scope, 0⟩, ⟨scope, 30⟩, ⟨{ path := "/v1/infer" }, 40⟩]
    let s : AppState ℕ := .new 60 0
    let s' := Machine.run (Machine.next (createApp id router store)) s reqs
    s'.rest = (admitted store s.limiter reqs).foldl handle 0 ∧
    s'.recorded = (Machine.answers (createApp id router store) s reqs).filterMap recordOf ∧
    (∀ q ∈ admitted store s.limiter reqs, AuthMiddleware.Guarded store q.scope →
      ∃ key, AuthMiddleware.presented store q.scope = some key ∧ q.scope.auth = some key ∧
        AuthMiddleware.checkPermission (HasRole.role key) q.scope.path q.scope.method) ∧
    ∀ p a, (admitted store s.limiter reqs).countP
      (fun q => q.arriving.principal = some p ∧ a ≤ q.now ∧ q.now ≤ a + 60) ≤ 1 := by
  intro store handle router headers scope reqs
  have happ : Confined (id router) handle := ⟨fun _ _ => rfl⟩
  have hlimit : ∀ r ∈ (reqs.filterMap (AuthMiddleware.passed store)).map Request.arriving,
      r.scope.limit 60 = 1 := by decide
  have hsorted : ((reqs.filterMap (AuthMiddleware.passed store)).map Request.arriving).Pairwise
      (·.now ≤ ·.now) := by decide +kernel
  have hregular : RateLimitMiddleware.Regular 60 (fun _ => 1)
      ((reqs.filterMap (AuthMiddleware.passed store)).map Request.arriving) :=
    ⟨hsorted, fun r hr _ _ => hlimit r hr⟩
  exact createApp_serves happ hregular 0

end Chen
