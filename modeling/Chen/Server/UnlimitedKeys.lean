import Chen.Server.RateLimit

/-!
# Keys without a limit

A rate of 0 requests per minute is documented as no limit. The limiter takes it for a rate that was
left out, and gives the key the default limit.
-/

namespace Chen

open SlidingWindow (Window prune)

/-- The request is that of a key without a limit. -/
def Arriving.Unlimited (r : Arriving) : Prop :=
  ∃ auth, r.scope.auth = some auth ∧ auth.rateLimitPerMinute = 0

/-- The times at which a principal came. -/
def requestTimes (p : String) (reqs : List Arriving) : List ℚ :=
  (reqs.filter fun r => r.principal = some p).map (·.now)

namespace RateLimitMiddleware

variable {m : RateLimitMiddleware} {r : Arriving} {p : String}

/-- The requests of `P` are forwarded, whatever else is sent. -/
def Forwards (P : Arriving → Prop) (m : RateLimitMiddleware) (reqs : List Arriving) : Prop :=
  Machine.EachStep (Machine.next call) (fun m r => P r → (m.call r).1 = .forwarded) m reqs

/-- A request does not change the default limit. -/
theorem call_defaultLimit (m : RateLimitMiddleware) (r : Arriving) :
    (m.call r).2.defaultLimit = m.defaultLimit := by
  cases hp : r.principal with
  | none => rw [call_of_no_principal hp]
  | some p =>
    rw [call_of_principal hp]
    dsimp only
    split <;> rfl

/-- Without a principal, a request of a key is not an HTTP request, and is forwarded. -/
theorem forwarded_of_no_principal (h : r.principal = none) (hunlimited : r.Unlimited) :
    (m.call r).1 = .forwarded := by
  obtain ⟨auth, hauth, -⟩ := hunlimited
  have hkey : r.scope.keyId = .ok auth.key := by rw [Scope.keyId, hauth]
  rw [call_of_no_principal h, Arriving.unlimited]
  split
  · rfl
  · rw [hkey]

/-- A key without a limit has the default limit. -/
theorem forwarded_iff_of_unlimited (h : r.principal = some p) (hunlimited : r.Unlimited) :
    (m.call r).1 = .forwarded ↔
      ((prune (r.now - 60) (m.queue p)).length : ℤ) < m.defaultLimit := by
  obtain ⟨auth, hauth, hzero⟩ := hunlimited
  have hlimit : r.scope.limit m.defaultLimit = m.defaultLimit := by
    rw [Scope.limit, hauth]
    exact if_pos hzero
  rw [call_of_principal h, hlimit]
  dsimp only
  split
  · next hfull => exact iff_of_false nofun (by omega)
  · next hroom => exact iff_of_true rfl (by omega)

/-- It leaves the queues of the others. -/
theorem queue_call_of_ne (h : r.principal ≠ some p) : (m.call r).2.queue p = m.queue p := by
  cases hq : r.principal with
  | none => rw [call_of_no_principal hq]
  | some q =>
    have hne : p ≠ q := by
      rintro rfl
      exact h hq
    rw [call_of_principal hq]
    dsimp only
    split <;> rw [queue_set, if_neg hne]

/-- If it is forwarded, its time is queued. -/
theorem queue_call_of_forwarded (h : r.principal = some p)
    (hforwarded : (m.call r).1 = .forwarded) :
    (m.call r).2.queue p = prune (r.now - 60) (m.queue p) ++ [r.now] := by
  rw [call_of_principal h] at hforwarded ⊢
  dsimp only at hforwarded ⊢
  split at hforwarded
  · cases hforwarded
  · next hroom => rw [if_neg hroom, queue_set, if_pos rfl]

/-- The queue of a principal whose requests were all forwarded is a window on all of them. -/
theorem window_requestTimes {defaultLimit : ℤ} {reqs : List Arriving}
    (hsorted : reqs.Pairwise (·.now ≤ ·.now))
    (hforwards : Forwards (·.principal = some p) { defaultLimit } reqs) {now : ℚ}
    (hnow : ∀ r ∈ reqs, r.now ≤ now) :
    Window (now - 60) ((after { defaultLimit } reqs).queue p) (requestTimes p reqs) := by
  induction reqs using List.reverseRecOn generalizing now with
  | nil => exact ⟨.nil, rfl⟩
  | append_singleton reqs r ih =>
    obtain ⟨hbefore, -, hlast⟩ := List.pairwise_append.mp hsorted
    have hr : ∀ r' ∈ reqs, r'.now ≤ r.now :=
      fun r' hr' => hlast r' hr' r (List.mem_singleton_self r)
    obtain ⟨hforwards, hcall, -⟩ := Machine.eachStep_append.mp hforwards
    have hwindow := ih hbefore hforwards hr
    have hcalled : r.principal = some p →
        ((after { defaultLimit } reqs).call r).1 = .forwarded := hcall
    have hafter : after { defaultLimit } (reqs ++ [r]) =
        ((after { defaultLimit } reqs).call r).2 := Machine.run_append ..
    have hcutoff : r.now - 60 ≤ now - 60 := by
      linarith [hnow r (List.mem_append_right _ (List.mem_singleton_self r))]
    rw [hafter, requestTimes, List.filter_append, List.map_append, ← requestTimes]
    by_cases hp : r.principal = some p
    · have htimes : ([r].filter fun r => r.principal = some p).map (·.now) = [r.now] := by simp [hp]
      rw [queue_call_of_forwarded hp (hcalled hp), htimes]
      refine ((hwindow.prune le_rfl).append fun t ht => ?_).mono hcutoff
      rw [hwindow.prune_eq le_rfl] at ht
      obtain ⟨r', hr', rfl⟩ := List.mem_map.mp (List.mem_of_mem_filter ht)
      exact hr r' (List.mem_of_mem_filter hr')
    · have htimes : ([r].filter fun r => r.principal = some p).map (·.now) = [] := by simp [hp]
      rw [queue_call_of_ne hp, htimes, List.append_nil]
      exact hwindow.mono hcutoff

/-- The default limit is that of the beginning. -/
theorem defaultLimit_after (defaultLimit : ℤ) (reqs : List Arriving) :
    (after { defaultLimit } reqs).defaultLimit = defaultLimit :=
  Machine.run_invariant (I := fun m : RateLimitMiddleware => m.defaultLimit = defaultLimit)
    (fun m r _ h => (call_defaultLimit m r).trans h) rfl

/-- Where all requests so far were forwarded, those that count are the ones of the last minute. -/
theorem forwarded_iff_countP {defaultLimit : ℤ} {before : List Arriving}
    (hsorted : (before ++ [r]).Pairwise (·.now ≤ ·.now))
    (hforwards : Forwards (·.principal = some p) { defaultLimit } before)
    (h : r.principal = some p) (hunlimited : r.Unlimited) :
    ((after { defaultLimit } before).call r).1 = .forwarded ↔
      ((requestTimes p before).countP (r.now - 60 ≤ ·) : ℤ) < defaultLimit := by
  obtain ⟨hbefore, -, hlast⟩ := List.pairwise_append.mp hsorted
  have hwindow := window_requestTimes hbefore hforwards fun r' hr' =>
    hlast r' hr' r (List.mem_singleton_self r)
  rw [forwarded_iff_of_unlimited h hunlimited, hwindow.prune_eq le_rfl, defaultLimit_after,
    List.countP_eq_length_filter]

/-- If fewer than the default limit came in the last minute whenever one came, all were
forwarded. -/
theorem forwards_of_countP {defaultLimit : ℤ} {reqs : List Arriving}
    (hsorted : reqs.Pairwise (·.now ≤ ·.now))
    (hunlimited : ∀ r ∈ reqs, r.principal = some p → r.Unlimited)
    (h : ∀ before r, before ++ [r] <+: reqs → r.principal = some p →
      ((requestTimes p before).countP (r.now - 60 ≤ ·) : ℤ) < defaultLimit) :
    Forwards (·.principal = some p) { defaultLimit } reqs := by
  induction reqs using List.reverseRecOn with
  | nil => trivial
  | append_singleton reqs r ih =>
    have hforwards := ih (List.pairwise_append.mp hsorted).1
      (fun r' hr' => hunlimited r' (List.mem_append_left _ hr'))
      (fun before r' hpre => h before r' (hpre.trans (List.prefix_append ..)))
    refine Machine.eachStep_append.mpr ⟨hforwards, fun hp => ?_, trivial⟩
    exact (forwarded_iff_countP hsorted hforwards hp
      (hunlimited r (List.mem_append_right _ (List.mem_singleton_self r)) hp)).mpr
        (h reqs r List.prefix_rfl hp)

/-- In a run, the keys without a limit are never refused if and only if, whenever one comes, fewer
than the default limit are left in its queue. Where the times are in order: a key of which all
requests come without a limit is never refused if and only if, whenever it comes, fewer than the
default limit of its requests are in the 60 seconds up to it. -/
theorem unlimited_forwarded_iff (defaultLimit : ℤ) (reqs : List Arriving) :
    (Forwards Arriving.Unlimited { defaultLimit } reqs ↔
      ∀ before r p, before ++ [r] <+: reqs → r.Unlimited → r.principal = some p →
        ((prune (r.now - 60) ((after { defaultLimit } before).queue p)).length : ℤ) <
          defaultLimit) ∧
    ∀ p, (∀ r ∈ reqs, r.principal = some p → r.Unlimited) → reqs.Pairwise (·.now ≤ ·.now) →
      (Forwards (·.principal = some p) { defaultLimit } reqs ↔
        ∀ before r, before ++ [r] <+: reqs → r.principal = some p →
          ((requestTimes p before).countP (r.now - 60 ≤ ·) : ℤ) < defaultLimit) := by
  refine ⟨Machine.eachStep_iff.trans ?_, fun p hunlimited hsorted => ⟨?_, ?_⟩⟩
  · refine forall_congr' fun before => forall_congr' fun r => ?_
    have hdefault := defaultLimit_after defaultLimit before
    constructor
    · intro hforwarded p hpre hr hp
      have hroom := (forwarded_iff_of_unlimited hp hr).mp (hforwarded hpre hr)
      exact hroom.trans_eq hdefault
    · intro hroom hpre hr
      cases hp : r.principal with
      | none => exact forwarded_of_no_principal hp hr
      | some p =>
        refine (forwarded_iff_of_unlimited hp hr).mpr ?_
        exact (hroom p hpre hr hp).trans_eq hdefault.symm
  · rintro hforwards before r ⟨rest, rfl⟩ hp
    obtain ⟨hbefore, hcall, -⟩ :=
      Machine.eachStep_append.mp (Machine.eachStep_append.mp hforwards).1
    refine (forwarded_iff_countP (List.pairwise_append.mp hsorted).1 hbefore hp ?_).mp (hcall hp)
    exact hunlimited r (by simp) hp
  · exact forwards_of_countP hsorted hunlimited

/-- Two requests of a key without a limit. -/
def hurried : List Arriving :=
  [⟨{ auth := some ⟨"k", 0⟩ }, 0⟩, ⟨{ auth := some ⟨"k", 0⟩ }, 1⟩]

/-- The second request still has room below the default limit. -/
theorem unlimited_forwarded_iff_hurried :
    Forwards (·.principal = some "k") { defaultLimit := 2 } hurried ↔
      ∀ before r, before ++ [r] <+: hurried → r.principal = some "k" →
        ((requestTimes "k" before).countP (r.now - 60 ≤ ·) : ℤ) < 2 := by
  refine (unlimited_forwarded_iff 2 hurried).2 "k" ?_ (by decide)
  simp [hurried, Arriving.Unlimited]

/-- With the default limit, a key without a limit is refused its 61st request within a minute. -/
theorem unlimited_throttled :
    ¬ ∀ (defaultLimit : ℤ) (reqs : List Arriving),
      Forwards Arriving.Unlimited { defaultLimit } reqs := by
  intro h
  let r : Arriving := ⟨{ auth := some ⟨"k", 0⟩ }, 0⟩
  have hforwards := h 60 (List.replicate 60 r ++ [r])
  have hforwarded : ((after { defaultLimit := 60 } (List.replicate 60 r)).call r).1 = .forwarded :=
    Machine.eachStep_iff.mp hforwards _ r List.prefix_rfl ⟨_, rfl, rfl⟩
  have hrefused : ((after { defaultLimit := 60 } (List.replicate 60 r)).call r).1 ≠ .forwarded := by
    decide +kernel
  exact hrefused hforwarded

end RateLimitMiddleware

end Chen
