import Chen.Observability.CircuitBreaker

/-!
# Recovery

An open breaker whose cooldown is over comes back: whoever looks at it first, and in whatever order
the clients enter and leave after that, it admits all of them and closes at the success that the
threshold asks for.
-/

namespace Chen.CircuitBreaker

variable {κ : Type} {cb : CircuitBreaker} {s s' : Inner} {c : Call κ}

/-- The exits that report a success. -/
def successes (calls : List (Call κ)) : ℕ := calls.countP (·.op = .exit false)

/-- Nobody fails, and nobody resets the breaker. -/
def Healthy (calls : List (Call κ)) : Prop :=
  ∀ c ∈ calls, c.op ≠ .exit true ∧ c.op ≠ .reset

instance (calls : List (Call κ)) : Decidable (Healthy calls) :=
  inferInstanceAs (Decidable (∀ c ∈ calls, _))

/-- The breaker recovers: it is closed, or it is half open and waits for `missing` successes. -/
def Recovering (cb : CircuitBreaker) (missing : ℤ) (s : Inner) : Prop :=
  missing ≤ 0 ∧ s.state = .closed ∨
    0 < missing ∧ s.state = .halfOpen ∧ missing = max 1 (cb.successThreshold - s.successCount)

/-- A breaker that recovers is not open. -/
theorem Recovering.not_opened {missing : ℤ} (h : cb.Recovering missing s) :
    s.state ≠ .opened := by
  rcases h with ⟨-, hs⟩ | ⟨-, hs, -⟩ <;> simp [hs]

/-- It is closed once no success is missing. -/
theorem Recovering.closed_iff {missing : ℤ} (h : cb.Recovering missing s) :
    s.state = .closed ↔ missing ≤ 0 := by
  rcases h with ⟨hle, hs⟩ | ⟨hlt, hs, -⟩
  · exact iff_of_true hs hle
  · exact iff_of_false (by simp [hs]) (by omega)

/-- A success counts, and everything else leaves what is missing. -/
theorem Recovering.of_moves {missing : ℤ} (h : cb.Recovering missing s) (hmoves : cb.Moves s c s')
    (hfail : c.op ≠ .exit true) (hreset : c.op ≠ .reset) :
    cb.Recovering (if c.op = .exit false then missing - 1 else missing) s' := by
  cases hmoves with
  | look hop =>
    rw [if_neg (hop.ne_exit false)]
    exact h
  | halfOpen _ hready => exact absurd hready.1 h.not_opened
  | clear hop hs =>
    rw [if_pos hop]
    exact .inl ⟨by have := h.closed_iff.mp hs; omega, hs⟩
  | ignore _ hs => exact absurd hs h.not_opened
  | count hop hs hlt =>
    rw [if_pos hop]
    rcases h with ⟨-, hclosed⟩ | ⟨-, -, hmissing⟩
    · rw [hs] at hclosed
      cases hclosed
    · exact .inr ⟨by omega, hs, by dsimp only; omega⟩
  | close hop hs hle =>
    rw [if_pos hop]
    rcases h with ⟨-, hclosed⟩ | ⟨-, -, hmissing⟩
    · rw [hs] at hclosed
      cases hclosed
    · exact .inl ⟨by omega, rfl⟩
  | fail hop | trip hop | reopen hop => exact absurd hop hfail
  | reset hop => exact absurd hop hreset

/-- Every success is one less to wait for. -/
theorem Recovering.run {calls : List (Call κ)} (hhealthy : Healthy calls) {missing : ℤ}
    (h : cb.Recovering missing s) :
    cb.Recovering (missing - successes calls) (Machine.run cb.step s calls) := by
  induction calls generalizing s missing with
  | nil => simpa [successes] using h
  | cons c calls ih =>
    obtain ⟨⟨hfail, hreset⟩, hhealthy⟩ := List.forall_mem_cons.mp hhealthy
    have hstep := ih hhealthy (h.of_moves (moves_step cb s c) hfail hreset)
    have hcount : missing - successes (c :: calls) =
        (if c.op = .exit false then missing - 1 else missing) - successes calls := by
      rw [successes, List.countP_cons, successes]
      by_cases hop : c.op = .exit false
      · simp only [hop, if_true, decide_true]
        omega
      · simp [hop]
    rw [hcount]
    exact hstep

/-- The first look at a breaker whose cooldown is over begins the recovery. -/
theorem recovering_of_ready (hlook : c.op.Looks) (hready : cb.Ready c.now s) :
    cb.Recovering (max 1 cb.successThreshold) (cb.step s c) := by
  rw [step_looks hlook, maybeTransition, if_pos hready]
  exact .inr ⟨by omega, rfl, by simp⟩

/-- From an open breaker whose cooldown is over when a call looks at it first: as long as nobody
fails or resets it, every request is admitted, whatever the order in which clients enter, leave and
look, and the breaker is closed if and only if as many successes as the threshold asks for have been
reported. -/
theorem recovers_iff (cb : CircuitBreaker) (s : Inner) (first : Call κ) (calls : List (Call κ))
    (hlook : first.op.Looks) (hready : cb.Ready first.now s) (hhealthy : Healthy calls) :
    (∀ pre c, pre ++ [c] <+: first :: calls → c.op = .enter →
      (cb.act (Machine.run cb.step s pre) c).1 = .entered) ∧
    ((Machine.run cb.step s (first :: calls)).state = .closed ↔
      max 1 cb.successThreshold ≤ successes calls) := by
  have hbegins := recovering_of_ready hlook hready
  constructor
  · intro pre c hpre hop
    rw [entered_iff hop]
    cases pre with
    | nil =>
      obtain ⟨rfl, -⟩ := List.cons_prefix_cons.mp hpre
      exact fun _ => hready
    | cons first' pre =>
      obtain ⟨rfl, hrest⟩ := List.cons_prefix_cons.mp hpre
      have hsub : Healthy pre := fun c' hc' =>
        hhealthy c' (hrest.subset (List.mem_append_left _ hc'))
      exact fun hs => absurd hs (hbegins.run hsub).not_opened
  · rw [Machine.run_cons, (hbegins.run hhealthy).closed_iff]
    omega

/-- Two clients and a monitor, at a breaker that asks for two successes. -/
theorem recovers_two :
    (∀ pre c, pre ++ [c] <+: [(⟨2, .toDict, 40, 40⟩ : Call ℕ), ⟨0, .enter, 41, 41⟩,
        ⟨1, .enter, 42, 42⟩, ⟨1, .exit false, 43, 43⟩, ⟨0, .exit false, 44, 44⟩] → c.op = .enter →
      (({ name := "coder", successThreshold := 2 } : CircuitBreaker).act
        (Machine.run ({ name := "coder", successThreshold := 2 } : CircuitBreaker).step
          { state := .opened, failureCount := 5, lastFailureTime := 10 } pre) c).1 = .entered) ∧
    ((Machine.run ({ name := "coder", successThreshold := 2 } : CircuitBreaker).step
        { state := .opened, failureCount := 5, lastFailureTime := 10 }
        [(⟨2, .toDict, 40, 40⟩ : Call ℕ), ⟨0, .enter, 41, 41⟩,
          ⟨1, .enter, 42, 42⟩, ⟨1, .exit false, 43, 43⟩, ⟨0, .exit false, 44, 44⟩]).state =
        .closed ↔ max 1 (2 : ℤ) ≤ (2 : ℕ)) :=
  recovers_iff { name := "coder", successThreshold := 2 } _ ⟨2, .toDict, 40, 40⟩ _
    (.inr (.inr rfl)) (by decide +kernel) (by decide)

end Chen.CircuitBreaker
