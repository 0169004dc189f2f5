import Chen.Observability.CircuitBreaker
import Mathlib.Data.List.DropRight

/-!
# Cooldown and counters

While a breaker is open, its cooldown runs at least from the time at which it opened. Its counters
say in every state what they are meant to say: CLOSED counts the failures in a row, and leaves at
the last one that the threshold allows.
-/

namespace Chen.CircuitBreaker

variable {κ : Type} {cb : CircuitBreaker} {s s' : Inner} {c : Call κ}

/-! ## Cooldown -/

/-- Either the breaker is still open and failed last at `t` or later, or the cooldown from `t` is
over. -/
def CoolsFrom (cb : CircuitBreaker) (t now : ℚ) (s : Inner) : Prop :=
  s.state = .opened ∧ t ≤ s.lastFailureTime ∨ t + cb.cooldownSeconds ≤ now

/-- A move keeps the cooldown from a failure. -/
theorem CoolsFrom.of_moves {t now : ℚ} (h : cb.CoolsFrom t now s) (hmoves : cb.Moves s c s')
    (hnow : now ≤ c.now) (ht : t ≤ c.now) (hop : c.op ≠ .reset) : cb.CoolsFrom t c.now s' := by
  rcases h with ⟨hs, hlast⟩ | hover
  swap
  · exact .inr (hover.trans hnow)
  have hneither : ∀ {state : CircuitState}, state ≠ .opened → s.state ≠ state := by
    intro state hne heq
    exact hne (heq.symm.trans hs)
  cases hmoves with
  | look | ignore => exact .inl ⟨hs, hlast⟩
  | halfOpen _ hready =>
    have hcooled := hready.2
    exact .inr (by linarith)
  -- a late failure starts the cooldown again
  | reopen => exact .inl ⟨rfl, ht⟩
  | clear _ hclosed | fail _ hclosed | trip _ hclosed => exact absurd hclosed (hneither nofun)
  | count _ hhalf | close _ hhalf => exact absurd hhalf (hneither nofun)
  | reset hreset => exact absurd hreset hop

/-- So does a run without a reset. -/
theorem CoolsFrom.run {t : ℚ} {calls : List (Call κ)} (hreset : ∀ c ∈ calls, c.op ≠ .reset)
    (htimely : Timely calls) {now : ℚ} (ht : t ≤ now) (hnow : ∀ c ∈ calls, now ≤ c.now)
    (h : cb.CoolsFrom t now s) {last : ℚ} (hnext : now ≤ last) (hlast : ∀ c ∈ calls, c.now ≤ last) :
    cb.CoolsFrom t last (Machine.run cb.step s calls) := by
  induction calls generalizing s now with
  | nil => exact h.imp_right (·.trans hnext)
  | cons c calls ih =>
    obtain ⟨hop, hreset⟩ := List.forall_mem_cons.mp hreset
    obtain ⟨hc, htimely⟩ := List.pairwise_cons.mp htimely
    obtain ⟨hcnow, -⟩ := List.forall_mem_cons.mp hnow
    obtain ⟨hclast, hlast⟩ := List.forall_mem_cons.mp hlast
    have htc : t ≤ c.now := ht.trans hcnow
    exact ih hreset htimely htc hc (h.of_moves (moves_step cb s c) hcnow htc hop) hclast hlast

/-- The breaker opens at a failure, whose time it keeps. -/
theorem Moves.opens (hmoves : cb.Moves s c s') (hs : s.state ≠ .opened)
    (hs' : s'.state = .opened) : s'.lastFailureTime = c.now := by
  cases hmoves with
  | trip | reopen => rfl
  | look | clear | ignore | count | fail => exact absurd hs' hs
  | halfOpen | close | reset => cases hs'

/-- If the breaker opens at some time, no request is admitted before that time plus the cooldown,
unless the breaker is reset in between. -/
theorem cooldown_respected (cb : CircuitBreaker) (before mid : List (Call κ))
    (opening next : Call κ) (htimely : Timely (before ++ opening :: (mid ++ [next])))
    (hbefore : (cb.after before).state ≠ .opened)
    (hopens : (cb.after (before ++ [opening])).state = .opened)
    (hreset : ∀ c ∈ mid, c.op ≠ .reset) (hop : next.op = .enter)
    (hadmitted : (cb.act (cb.after (before ++ opening :: mid)) next).1 = .entered) :
    opening.now + cb.cooldownSeconds ≤ next.now := by
  unfold after at hopens hadmitted
  rw [Machine.run_append] at hopens hadmitted
  have hlast := (moves_step cb (cb.after before) opening).opens hbefore hopens
  obtain ⟨hfrom, hrest⟩ := List.pairwise_cons.mp (List.pairwise_append.mp htimely).2.1
  obtain ⟨hmid, -, hmidnext⟩ := List.pairwise_append.mp hrest
  have hcools : cb.CoolsFrom opening.now next.now
      (Machine.run cb.step (cb.step (cb.after before) opening) mid) := by
    apply CoolsFrom.run hreset hmid le_rfl
    · exact fun c hc => hfrom c (List.mem_append_left _ hc)
    · exact .inl ⟨hopens, hlast.ge⟩
    · exact hfrom next (by simp)
    · exact fun c hc => hmidnext c hc next (by simp)
  rcases hcools with ⟨hstill, hlast⟩ | hover
  · have hcooled : cb.cooldownSeconds ≤ next.now -
        (Machine.run cb.step (cb.step (cb.after before) opening) mid).lastFailureTime :=
      ((entered_iff hop).mp hadmitted hstill).2
    linarith
  · exact hover

/-- A second failure comes late, at second 5, and the request at second 15 is admitted. -/
theorem cooldown_respected_fifteen : (2 : ℚ) + 10 ≤ 15 :=
  cooldown_respected { name := "reasoner", threshold := 1, cooldownSeconds := 10 }
    [⟨0, .enter, 0, 0⟩, ⟨1, .enter, 1, 1⟩]
    [⟨1, .exit true, 5, 5⟩, ⟨0, .enter, 12, 12⟩, ⟨2, .state, 15, 15⟩]
    ⟨0, .exit true, 2, 2⟩ ⟨0, .enter, 15, 15⟩
    (by decide) (by decide) (by decide) (by decide) rfl (by decide +kernel)

/-! ## Counters -/

section Counters

variable (cb)

/-- The calls of a run, each with what the breaker was before it. -/
def history (calls : List (Call κ)) : List (Call κ × Inner) :=
  Machine.answers (fun s c => (s, cb.step s c)) {} calls

/-- From where on failures are counted: a successful exit, a reset, or an entry into CLOSED. -/
def Restarts (c : Call κ) (s s' : Inner) : Prop :=
  c.op = .exit false ∨ c.op = .reset ∨ s.state ≠ .closed ∧ s'.state = .closed

instance (c : Call κ) (s s' : Inner) : Decidable (Restarts c s s') :=
  inferInstanceAs (Decidable (_ ∨ _))

/-- The failing exits since then. -/
def failuresSince (calls : List (Call κ)) : ℕ :=
  ((cb.history calls).rtakeWhile fun (c, s) => ¬Restarts c s (cb.step s c)).countP
    fun (c, _) => c.op = .exit true

/-- The counters are right after `n` failures in a row. -/
structure Counts (n : ℕ) (s : Inner) : Prop where
  closed : s.state = .closed → s.failureCount = n ∧ s.failureCount < cb.threshold
  tripped : s.state ≠ .closed → s.failureCount = cb.threshold
  probing : s.state = .halfOpen → s.successCount < cb.successThreshold

variable {cb}

/-- The history of one more call. -/
theorem history_append (calls : List (Call κ)) (c : Call κ) :
    cb.history (calls ++ [c]) = cb.history calls ++ [(c, cb.after calls)] := by
  unfold history
  rw [Machine.answers_append]
  rfl

/-- One more call begins the count again or may add to it. -/
theorem failuresSince_append (calls : List (Call κ)) (c : Call κ) :
    cb.failuresSince (calls ++ [c]) =
      if Restarts c (cb.after calls) (cb.after (calls ++ [c])) then 0
      else cb.failuresSince calls + if c.op = .exit true then 1 else 0 := by
  unfold failuresSince
  rw [history_append, List.rtakeWhile_concat, after_append]
  by_cases h : Restarts c (cb.after calls) (cb.step (cb.after calls) c)
  · simp [h]
  · simp [h, List.countP_append, List.countP_cons]

/-- Every move keeps the counters right. -/
theorem Counts.of_moves {n : ℕ} (h : cb.Counts n s) (hthreshold : 1 ≤ cb.threshold)
    (hsuccess : 1 ≤ cb.successThreshold) (hmoves : cb.Moves s c s') :
    cb.Counts (if Restarts c s s' then 0 else n + if c.op = .exit true then 1 else 0) s' := by
  have hzero : (0 : ℤ) < cb.threshold ∧ (0 : ℤ) < cb.successThreshold := by omega
  cases hmoves with
  | look hop =>
    have hrestarts : ¬Restarts c s s := by
      simp [Restarts, hop.ne_exit, hop.ne_reset]
    rwa [if_neg hrestarts, if_neg (hop.ne_exit true)]
  | halfOpen hop hready =>
    have hfailures := h.tripped (by rw [hready.1]; decide)
    exact ⟨nofun, fun _ => hfailures, fun _ => hzero.2⟩
  | clear hop hs =>
    rw [if_pos (.inl hop)]
    exact ⟨fun _ => ⟨rfl, hzero.1⟩, fun hne => absurd hs hne, h.probing⟩
  | ignore hop hs =>
    have hne : s.state ≠ .closed := by simp [hs]
    exact ⟨fun hclosed => absurd hclosed hne, h.tripped, h.probing⟩
  | count hop hs hlt =>
    have hne : s.state ≠ .closed := by simp [hs]
    exact ⟨fun hclosed => absurd hclosed hne, h.tripped, fun _ => hlt⟩
  | close hop hs hle =>
    rw [if_pos (.inl hop)]
    exact ⟨fun _ => ⟨rfl, hzero.1⟩, fun hne => absurd rfl hne, nofun⟩
  | fail hop hs hlt =>
    have hrestarts : ¬Restarts c s
        { s with failureCount := s.failureCount + 1, lastFailureTime := c.now } := by
      simp [Restarts, hop, hs]
    rw [if_neg hrestarts, if_pos hop]
    obtain ⟨hn, -⟩ := h.closed hs
    refine ⟨fun _ => ⟨?_, hlt⟩, fun hne => absurd hs hne, h.probing⟩
    rw [hn, Nat.cast_add, Nat.cast_one]
  | trip hop hs hle =>
    obtain ⟨-, hlt⟩ := h.closed hs
    refine ⟨nofun, fun _ => ?_, nofun⟩
    show s.failureCount + 1 = cb.threshold
    omega
  | reopen hop hs => exact ⟨nofun, fun _ => h.tripped hs, nofun⟩
  | reset hop =>
    rw [if_pos (.inr (.inl hop))]
    exact ⟨fun _ => ⟨rfl, hzero.1⟩, fun hne => absurd rfl hne, nofun⟩

/-- The counters are right after every series of calls. -/
theorem counts_after (hthreshold : 1 ≤ cb.threshold) (hsuccess : 1 ≤ cb.successThreshold)
    (calls : List (Call κ)) : cb.Counts (cb.failuresSince calls) (cb.after calls) := by
  induction calls using List.reverseRecOn with
  | nil =>
    have hzero : (0 : ℤ) < cb.threshold := by omega
    exact ⟨fun _ => ⟨rfl, hzero⟩, fun hne => absurd rfl hne, nofun⟩
  | append_singleton calls c ih =>
    rw [failuresSince_append, after_append]
    exact ih.of_moves hthreshold hsuccess (moves_step cb _ c)

/-- The breaker leaves CLOSED at a failure that brings the failures in a row to the threshold. -/
theorem Counts.leaves_iff {n : ℕ} (h : cb.Counts n s) (hs : s.state = .closed)
    (hmoves : cb.Moves s c s') :
    s'.state ≠ .closed ↔ c.op = .exit true ∧ (n : ℤ) + 1 = cb.threshold := by
  obtain ⟨hn, hlt⟩ := h.closed hs
  rw [← hn]
  cases hmoves with
  | look hop => exact iff_of_false (absurd hs) fun h => hop.ne_exit true h.1
  | halfOpen _ hready => exact nomatch hs.symm.trans hready.1
  | clear hop => exact iff_of_false (absurd hs) fun h => nomatch hop.symm.trans h.1
  | ignore _ hopened => exact nomatch hs.symm.trans hopened
  | count _ hhalf | close _ hhalf => exact nomatch hs.symm.trans hhalf
  | fail hop _ hbelow => exact iff_of_false (absurd hs) fun h => by omega
  | trip hop _ hle => exact iff_of_true nofun ⟨hop, by omega⟩
  | reopen _ hne => exact absurd hs hne
  | reset hop => exact iff_of_false (absurd rfl) fun h => nomatch hop.symm.trans h.1

variable (cb)

/-- In every state that is reached: CLOSED has counted the failing exits since the last successful
exit, reset or entry into CLOSED, which are fewer than the threshold; OPEN and HALF_OPEN have
counted the threshold; HALF_OPEN has fewer successes than it needs. So CLOSED is left at the
failure that is the threshold-th in a row, and at no other call. -/
theorem counters_exact (hthreshold : 1 ≤ cb.threshold) (hsuccess : 1 ≤ cb.successThreshold)
    (calls : List (Call κ)) :
    cb.Counts (cb.failuresSince calls) (cb.after calls) ∧
      ((cb.after calls).state = .closed → ∀ c,
        ((cb.after (calls ++ [c])).state ≠ .closed ↔
          c.op = .exit true ∧ (cb.failuresSince calls : ℤ) + 1 = cb.threshold)) := by
  have hcounts := counts_after hthreshold hsuccess calls
  refine ⟨hcounts, fun hclosed c => ?_⟩
  rw [after_append]
  exact hcounts.leaves_iff hclosed (moves_step cb _ c)

end Counters

/-- Two failures in a row after a success, with a third client still on its way. -/
theorem counters_exact_two :
    let cb : CircuitBreaker := { name := "reasoner", threshold := 3 }
    let calls : List (Call ℕ) := [⟨0, .enter, 0, 0⟩, ⟨0, .exit true, 1, 1⟩, ⟨1, .enter, 1, 1⟩,
      ⟨2, .enter, 2, 2⟩, ⟨1, .exit false, 3, 3⟩, ⟨2, .exit true, 4, 4⟩, ⟨3, .enter, 4, 4⟩,
      ⟨0, .enter, 5, 5⟩, ⟨0, .exit true, 6, 6⟩]
    cb.failuresSince calls = 2 ∧ cb.Counts 2 (cb.after calls) ∧
      (cb.after (calls ++ [⟨3, .exit true, 7, 7⟩])).state ≠ .closed := by
  intro cb calls
  have hsince : cb.failuresSince calls = 2 := by decide
  obtain ⟨hcounts, hleaves⟩ := counters_exact cb (by decide) (by decide) calls
  rw [hsince] at hcounts hleaves
  exact ⟨hsince, hcounts, (hleaves (by decide) _).mpr ⟨rfl, rfl⟩⟩

end Chen.CircuitBreaker
