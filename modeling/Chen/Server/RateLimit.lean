import Chen.Library.Machine
import Chen.Library.SlidingWindow
import Chen.Python.Dict
import Chen.Python.Exception
import Chen.Python.Text
import Mathlib.Algebra.Order.Ring.Rat
import Mathlib.Tactic.Linarith

/-!
# Rate limiting

`RateLimitMiddleware` keeps a queue of times for each principal, pruned whenever the principal
comes. It decides as a limiter would that remembers every request it ever forwarded.
-/

namespace Chen

/-- An API key, as far as the limiter reads it. -/
structure APIKey where
  key : String
  rateLimitPerMinute : ℤ := 60

/-- A connection scope, as far as the limiter reads it: `client` is absent, `None`, or an address
with its host, and `auth` is what `state` has. -/
structure Scope where
  type : String := "http"
  client : Option (Option String) := none
  auth : Option APIKey := none

/-- A scope, and what the clock shows when it is handled. -/
structure Arriving where
  scope : Scope
  now : ℚ

/-- What comes of a request: it goes to the application, or is answered with an error. -/
inductive Handled where
  | forwarded
  | answered (status : ℕ) (headers : List (String × String)) (body : String)
  | raised (x : Exn)
deriving DecidableEq

/-- Who is limited: the API key, or the host without one. -/
def Scope.keyId (scope : Scope) : Except Exn String :=
  match scope.auth with
  | none =>
    match scope.client with
    | none => .ok "ip:unknown"
    | some none => .error (.other "TypeError" "'NoneType' object is not subscriptable")
    | some (some host) => .ok ("ip:" ++ host)
  | some auth => .ok auth.key

/-- The limit that the scope asks for. -/
def Scope.limit (defaultLimit : ℤ) (scope : Scope) : ℤ :=
  match scope.auth with
  | none => defaultLimit
  -- `rate_limit_per_minute or default_limit`
  | some auth => if auth.rateLimitPerMinute = 0 then defaultLimit else auth.rateLimitPerMinute

/-- The answer above the limit. -/
def rateLimitExceeded (limit : ℤ) : Handled :=
  let body := "\x7b\"error\": \"Rate limit exceeded\", \"limit\": " ++ toString limit ++
    ", \"window_seconds\": 60.0\x7d"
  .answered 429
    [("content-type", "application/json"), ("content-length", toString (Str.utf8 body).length),
      ("retry-after", "60")] body

structure RateLimitMiddleware where
  defaultLimit : ℤ := 60
  requests : Dict String (List ℚ) := []

namespace RateLimitMiddleware

/-- `_requests[key_id]`, where a new key has an empty queue. -/
def queue (m : RateLimitMiddleware) (keyId : String) : List ℚ := (m.requests.get? keyId).getD []

/-- `__call__`. -/
def call (m : RateLimitMiddleware) (r : Arriving) : Handled × RateLimitMiddleware :=
  if r.scope.type ≠ "http" then (.forwarded, m)
  else
    match r.scope.keyId with
    | .error x => (.raised x, m)
    | .ok keyId =>
      let limit := r.scope.limit m.defaultLimit
      -- popped from the left while older than the window
      let reqs := SlidingWindow.prune (r.now - 60) (m.queue keyId)
      if limit ≤ reqs.length then
        (rateLimitExceeded limit, { m with requests := m.requests.set keyId reqs })
      else
        (.forwarded, { m with requests := m.requests.set keyId (reqs ++ [r.now]) })

/-- The results of a series of requests, each with its request. -/
def results (m : RateLimitMiddleware) (reqs : List Arriving) : List (Arriving × Handled) :=
  Machine.answers call m reqs

end RateLimitMiddleware

/-- The principal of an HTTP request. -/
def Arriving.principal (r : Arriving) : Option String :=
  if r.scope.type ≠ "http" then none else r.scope.keyId.toOption

/-- What comes of a request that has no principal. -/
def Arriving.unlimited (r : Arriving) : Handled :=
  if r.scope.type ≠ "http" then .forwarded
  else
    match r.scope.keyId with
    | .error x => .raised x
    | .ok _ => .forwarded

/-- The times of the requests of a principal that were forwarded. -/
def forwardedTimes (p : String) (results : List (Arriving × Handled)) : List ℚ :=
  (results.filter fun x => x.1.principal = some p ∧ x.2 = .forwarded).map (·.1.now)

/-! ## The limiter that remembers everything -/

namespace ExactLimiter

/-- A request is forwarded if fewer than the limit were in the minute behind it. The state has the
times of all requests forwarded, for each principal. -/
def call (limit : String → ℕ) (log : String → List ℚ) (r : Arriving) :
    Handled × (String → List ℚ) :=
  match r.principal with
  | none => (r.unlimited, log)
  | some p =>
    if (log p).countP (r.now - 60 ≤ ·) < limit p then
      (.forwarded, Function.update log p (log p ++ [r.now]))
    else (rateLimitExceeded (limit p), log)

variable {limit : String → ℕ} {log : String → List ℚ} {r : Arriving} {p : String}

/-- A request of a principal is forwarded if its window has room. -/
theorem call_of_principal (h : r.principal = some p) :
    call limit log r =
      if (log p).countP (r.now - 60 ≤ ·) < limit p then
        (.forwarded, Function.update log p (log p ++ [r.now]))
      else (rateLimitExceeded (limit p), log) := by
  rw [call, h]

/-- A request of nobody is not limited. -/
theorem call_of_no_principal (h : r.principal = none) : call limit log r = (r.unlimited, log) := by
  rw [call, h]

/-- A request of a principal is forwarded if and only if there is room. -/
theorem forwarded_iff (h : r.principal = some p) :
    (call limit log r).1 = .forwarded ↔ (log p).countP (r.now - 60 ≤ ·) < limit p := by
  rw [call_of_principal h]
  split
  · next hroom => exact iff_of_true rfl hroom
  · next hroom => exact iff_of_false nofun hroom

/-- A request that is not forwarded leaves no trace. -/
theorem call_of_not_forwarded (h : (call limit log r).1 ≠ .forwarded) :
    (call limit log r).2 = log := by
  cases hp : r.principal with
  | none => rw [call_of_no_principal hp]
  | some p =>
    rw [call_of_principal hp, if_neg (mt (forwarded_iff hp).mpr h)]

/-- The log of a principal grows by the requests forwarded. -/
theorem call_log (limit : String → ℕ) (log : String → List ℚ) (r : Arriving) (p : String) :
    (call limit log r).2 p = log p ++ forwardedTimes p [(r, (call limit log r).1)] := by
  cases hp : r.principal with
  | none => simp [call_of_no_principal hp, forwardedTimes, hp]
  | some q =>
    rw [call_of_principal hp]
    by_cases hq : q = p
    · subst hq
      split
      · simp [forwardedTimes, hp]
      · simp [forwardedTimes, hp, rateLimitExceeded]
    · split
      · simp [forwardedTimes, hp, hq, Function.update_of_ne (Ne.symm hq)]
      · simp [forwardedTimes, hp, hq]

/-- The log has the times of what was forwarded. -/
theorem run_log (limit : String → ℕ) (reqs : List Arriving) (p : String) :
    Machine.run (Machine.next (call limit)) (fun _ => []) reqs p =
      forwardedTimes p (Machine.answers (call limit) (fun _ => []) reqs) := by
  induction reqs using List.reverseRecOn with
  | nil => rfl
  | append_singleton reqs r ih =>
    rw [Machine.run_append, Machine.answers_append, forwardedTimes, List.filter_append,
      List.map_append, ← forwardedTimes, ← ih]
    exact call_log limit _ r p

/-- The log of a principal is under its limit. -/
theorem limited_run (limit : String → ℕ) (reqs : List Arriving) (p : String) :
    SlidingWindow.Limited (· - 60) (limit p)
      (Machine.run (Machine.next (call limit)) (fun _ => []) reqs p) := by
  refine Machine.run_invariant
    (I := fun log : String → List ℚ => SlidingWindow.Limited (· - 60) (limit p) (log p)) ?_ ?_
  · intro log r _ hlog
    show SlidingWindow.Limited _ _ ((call limit log r).2 p)
    cases hp : r.principal with
    | none => rwa [call_of_no_principal hp]
    | some q =>
      rw [call_of_principal hp]
      split
      · next hroom =>
        dsimp only
        by_cases hq : q = p
        · subst hq
          rw [Function.update_self]
          exact SlidingWindow.limited_append_singleton.mpr ⟨hlog, hroom⟩
        · rwa [Function.update_of_ne (Ne.symm hq)]
      · exact hlog
  · intro before t hpre
    simp at hpre

end ExactLimiter

namespace RateLimitMiddleware

variable {m : RateLimitMiddleware} {r : Arriving} {p : String}

/-- The middleware prunes the queue of the principal and looks at its length. -/
theorem call_of_principal (h : r.principal = some p) :
    m.call r =
      let limit := r.scope.limit m.defaultLimit
      let reqs := SlidingWindow.prune (r.now - 60) (m.queue p)
      if limit ≤ reqs.length then
        (rateLimitExceeded limit, { m with requests := m.requests.set p reqs })
      else
        (.forwarded, { m with requests := m.requests.set p (reqs ++ [r.now]) }) := by
  unfold Arriving.principal at h
  unfold call
  split at h
  · cases h
  · next htype =>
    rw [if_neg htype]
    cases hkey : r.scope.keyId with
    | error x =>
      rw [hkey] at h
      cases h
    | ok q =>
      rw [hkey] at h
      cases h
      rfl

/-- A request of nobody touches no queue. -/
theorem call_of_no_principal (h : r.principal = none) : m.call r = (r.unlimited, m) := by
  unfold Arriving.principal at h
  unfold call Arriving.unlimited
  split
  · rfl
  · next htype =>
    rw [if_neg htype] at h
    cases hkey : r.scope.keyId with
    | error x => rfl
    | ok q =>
      rw [hkey] at h
      cases h

/-- Setting one queue leaves the others. -/
theorem queue_set (m : RateLimitMiddleware) (p q : String) (reqs : List ℚ) :
    queue { m with requests := m.requests.set p reqs } q = if q = p then reqs else m.queue q := by
  unfold queue
  by_cases hq : q = p
  · rw [if_pos hq, hq, Dict.get?_set_self]
    rfl
  · rw [if_neg hq, Dict.get?_set_of_ne _ hq]

/-- The queues are windows on the logs, which end at `now`. -/
structure Tracks (now : ℚ) (m : RateLimitMiddleware) (log : String → List ℚ) : Prop where
  window : ∀ p, SlidingWindow.Window (now - 60) (m.queue p) (log p)
  past : ∀ p, ∀ t ∈ log p, t ≤ now

/-- A queue tracks its window when time goes by. -/
theorem Tracks.mono {now t : ℚ} {log : String → List ℚ} (h : m.Tracks now log) (hnow : now ≤ t) :
    m.Tracks t log :=
  ⟨fun p => (h.window p).mono (by linarith), fun p x hx => (h.past p x hx).trans hnow⟩

/-- Pruning changes nothing of what counts. -/
theorem Tracks.pruned {now t : ℚ} {log : String → List ℚ} (h : m.Tracks now log) (hnow : now ≤ t)
    (p : String) :
    Tracks t
      { m with requests := m.requests.set p (SlidingWindow.prune (t - 60) (m.queue p)) } log := by
  refine ⟨fun q => ?_, (h.mono hnow).past⟩
  rw [queue_set]
  by_cases hq : q = p
  · rw [if_pos hq, hq]
    exact (h.window p).prune (by linarith)
  · rw [if_neg hq]
    exact (h.mono hnow).window q

/-- A request that is forwarded goes into the queue and into the log. -/
theorem Tracks.forwarded {now t : ℚ} {log : String → List ℚ} (h : m.Tracks now log)
    (hnow : now ≤ t) (p : String) :
    Tracks t
      { m with requests := m.requests.set p (SlidingWindow.prune (t - 60) (m.queue p) ++ [t]) }
      (Function.update log p (log p ++ [t])) := by
  have hcutoff : now - 60 ≤ t - 60 := by linarith
  constructor
  · intro q
    rw [queue_set]
    by_cases hq : q = p
    · subst hq
      rw [if_pos rfl, Function.update_self]
      apply ((h.window q).prune hcutoff).append
      intro x hx
      rw [(h.window q).prune_eq hcutoff] at hx
      exact (h.mono hnow).past q x (List.mem_of_mem_filter hx)
    · rw [if_neg hq, Function.update_of_ne hq]
      exact (h.mono hnow).window q
  · intro q x hx
    by_cases hq : q = p
    · subst hq
      rw [Function.update_self, List.mem_append, List.mem_singleton] at hx
      rcases hx with hx | rfl
      · exact (h.mono hnow).past q x hx
      · exact le_rfl
    · rw [Function.update_of_ne hq] at hx
      exact (h.mono hnow).past q x hx

/-- The limiter decides as the one that remembers everything, and goes on tracking it. -/
theorem Tracks.call {now : ℚ} {log : String → List ℚ} (h : m.Tracks now log) (hnow : now ≤ r.now)
    {limit : String → ℕ}
    (hlimit : ∀ p, r.principal = some p → r.scope.limit m.defaultLimit = limit p) :
    (m.call r).1 = (ExactLimiter.call limit log r).1 ∧
      (m.call r).2.Tracks r.now (ExactLimiter.call limit log r).2 ∧
      (m.call r).2.defaultLimit = m.defaultLimit := by
  cases hp : r.principal with
  | none =>
    rw [call_of_no_principal hp, ExactLimiter.call_of_no_principal hp]
    exact ⟨rfl, h.mono hnow, rfl⟩
  | some p =>
    -- what is left in the queue is what counts in the log
    have hcount : (SlidingWindow.prune (r.now - 60) (m.queue p)).length =
        (log p).countP (r.now - 60 ≤ ·) := by
      rw [(h.window p).prune_eq (by linarith), List.countP_eq_length_filter]
    rw [call_of_principal hp, ExactLimiter.call_of_principal hp, hlimit p hp]
    dsimp only
    rw [hcount]
    by_cases hroom : (log p).countP (r.now - 60 ≤ ·) < limit p
    · rw [if_pos hroom, if_neg (by omega)]
      exact ⟨rfl, h.forwarded hnow p, rfl⟩
    · rw [if_neg hroom, if_pos (by omega)]
      exact ⟨rfl, h.pruned hnow p, rfl⟩

/-- Over a run with times in order and one limit for each principal, the answers are those of the
limiter that remembers everything. -/
theorem Tracks.answers {limit : String → ℕ} {reqs : List Arriving}
    (hsorted : reqs.Pairwise (·.now ≤ ·.now))
    (hlimit : ∀ r ∈ reqs, ∀ p, r.principal = some p → r.scope.limit m.defaultLimit = limit p)
    {now : ℚ} {log : String → List ℚ} (h : m.Tracks now log) (hnow : ∀ r ∈ reqs, now ≤ r.now) :
    Machine.answers RateLimitMiddleware.call m reqs =
      Machine.answers (ExactLimiter.call limit) log reqs := by
  induction reqs generalizing m now log with
  | nil => rfl
  | cons r reqs ih =>
    obtain ⟨hr, hsorted⟩ := List.pairwise_cons.mp hsorted
    obtain ⟨hanswer, htracks, hdefault⟩ :=
      h.call (hnow r (List.mem_cons_self ..)) (hlimit r (List.mem_cons_self ..))
    rw [Machine.answers, Machine.answers, hanswer]
    congr 1
    apply ih hsorted ?_ htracks hr
    intro r' hr' p hp
    rw [hdefault]
    exact hlimit r' (List.mem_cons_of_mem _ hr') p hp

/-- The middleware after a series of requests. -/
def after (m : RateLimitMiddleware) (reqs : List Arriving) : RateLimitMiddleware :=
  Machine.run (Machine.next call) m reqs

/-- The results of a series, at one of its requests. -/
theorem results_append_cons (m : RateLimitMiddleware) (before rest : List Arriving) (r : Arriving) :
    m.results (before ++ r :: rest) =
      m.results before ++ (r, ((m.after before).call r).1) ::
        (m.after (before ++ [r])).results rest := by
  have hafter : m.after (before ++ [r]) = ((m.after before).call r).2 :=
    Machine.run_append m before [r]
  rw [hafter]
  exact Machine.answers_append m before (r :: rest)

/-- The times are in order, and the requests of each principal have its limit. -/
structure Regular (defaultLimit : ℤ) (limit : String → ℕ) (reqs : List Arriving) : Prop where
  sorted : reqs.Pairwise (·.now ≤ ·.now)
  limits : ∀ r ∈ reqs, ∀ p, r.principal = some p → r.scope.limit defaultLimit = limit p

section Runs

variable {defaultLimit : ℤ} {limit : String → ℕ} {reqs before rest : List Arriving}

/-- Fewer requests are regular. -/
theorem Regular.sublist (h : Regular defaultLimit limit reqs) {rs : List Arriving}
    (hrs : rs.Sublist reqs) : Regular defaultLimit limit rs :=
  ⟨h.sorted.sublist hrs, fun r hr => h.limits r (hrs.mem hr)⟩

/-- A new middleware answers as the limiter that remembers everything. -/
theorem Regular.results_eq (h : Regular defaultLimit limit reqs) :
    results { defaultLimit } reqs =
      Machine.answers (ExactLimiter.call limit) (fun _ => []) reqs := by
  cases reqs with
  | nil => rfl
  | cons r reqs =>
    have hnew : Tracks r.now { defaultLimit } fun _ => [] :=
      ⟨fun p => ⟨List.Pairwise.nil, rfl⟩, fun p t ht => nomatch ht⟩
    apply hnew.answers h.sorted h.limits
    rw [List.forall_mem_cons]
    exact ⟨le_rfl, (List.pairwise_cons.mp h.sorted).1⟩

/-- The same from some request on. -/
theorem Regular.after_eq (h : Regular defaultLimit limit (before ++ r :: rest)) :
    let log := Machine.run (Machine.next (ExactLimiter.call limit)) (fun _ => []) before
    ((after { defaultLimit } before).call r).1 = (ExactLimiter.call limit log r).1 ∧
      (after { defaultLimit } (before ++ [r])).results rest =
        Machine.answers (ExactLimiter.call limit) (ExactLimiter.call limit log r).2 rest := by
  intro log
  have hall := h.results_eq
  have hbefore := (h.sublist (List.sublist_append_left before _)).results_eq
  rw [results_append_cons, Machine.answers_append, hbefore, List.append_cancel_left_eq] at hall
  -- the first answers are the same, so the next one is, and those after it
  obtain ⟨hanswer, hrest⟩ := List.cons.inj hall
  exact ⟨(Prod.mk.inj hanswer).2, hrest⟩

/-- No 60 seconds hold more requests of a principal than its limit. -/
theorem Regular.countP_le (h : Regular defaultLimit limit reqs) (p : String) (a : ℚ) :
    (forwardedTimes p (results { defaultLimit } reqs)).countP (fun t => a ≤ t ∧ t ≤ a + 60) ≤
      limit p := by
  rw [h.results_eq, ← ExactLimiter.run_log]
  apply (ExactLimiter.limited_run limit reqs p).countP_le
  · intro t t' ht
    show t - 60 ≤ t' - 60
    linarith
  · show a + 60 - 60 ≤ a
    linarith

/-- Over a run with times in order and one limit for each principal: a request is forwarded if and
only if fewer than the limit were forwarded in the 60 seconds up to it, no 60 seconds hold more than
the limit, and a request that is not forwarded changes nothing of what comes after. -/
theorem sliding_window (h : Regular defaultLimit limit reqs) :
    let m : RateLimitMiddleware := { defaultLimit }
    (∀ before r rest p, reqs = before ++ r :: rest → r.principal = some p →
      (((m.after before).call r).1 = .forwarded ↔
        (forwardedTimes p (m.results before)).countP (r.now - 60 ≤ ·) < limit p)) ∧
    (∀ p a, (forwardedTimes p (m.results reqs)).countP (fun t => a ≤ t ∧ t ≤ a + 60) ≤ limit p) ∧
    ∀ before r rest, reqs = before ++ r :: rest → ((m.after before).call r).1 ≠ .forwarded →
      m.results (before ++ rest) =
        m.results before ++ (m.after (before ++ [r])).results rest := by
  intro m
  refine ⟨?_, h.countP_le, ?_⟩
  · rintro before r rest p rfl hp
    rw [h.after_eq.1, ExactLimiter.forwarded_iff hp, ExactLimiter.run_log,
      (h.sublist (List.sublist_append_left before _)).results_eq]
  · rintro before r rest rfl hrefused
    obtain ⟨hanswer, hrest⟩ := h.after_eq
    rw [hanswer] at hrefused
    have hskip : (before ++ rest).Sublist (before ++ r :: rest) :=
      (List.sublist_cons_self r rest).append_left before
    rw [(h.sublist hskip).results_eq, (h.sublist (List.sublist_append_left before _)).results_eq,
      Machine.answers_append, hrest, ExactLimiter.call_of_not_forwarded hrefused]

end Runs

/-- A limit of two, and a request behind the window. -/
theorem sliding_window_two :
    let reqs := [Arriving.mk {} 0, .mk {} 30, .mk { client := some (some "h") } 59, .mk {} 60,
      .mk {} 61]
    let m : RateLimitMiddleware := { defaultLimit := 2 }
    (∀ before r rest p, reqs = before ++ r :: rest → r.principal = some p →
      (((m.after before).call r).1 = .forwarded ↔
        (forwardedTimes p (m.results before)).countP (r.now - 60 ≤ ·) < 2)) ∧
    (∀ p a, (forwardedTimes p (m.results reqs)).countP (fun t => a ≤ t ∧ t ≤ a + 60) ≤ 2) ∧
    ∀ before r rest, reqs = before ++ r :: rest → ((m.after before).call r).1 ≠ .forwarded →
      m.results (before ++ rest) =
        m.results before ++ (m.after (before ++ [r])).results rest := by
  intro reqs m
  have hlimit : ∀ r ∈ reqs, r.scope.limit 2 = 2 := by decide
  have hregular : Regular 2 (fun _ => 2) reqs := ⟨by decide, fun r hr _ _ => hlimit r hr⟩
  exact sliding_window hregular

end RateLimitMiddleware

end Chen
