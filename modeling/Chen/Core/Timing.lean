import Chen.Core.Pipeline
import Chen.Library.Simulation

/-!
# Timings do not influence a run

Two runs whose backends start in the same world make the same calls and return the same answers,
whatever their clocks show. `SameRun M` relates the states of two such runs, where `M` relates
their memories.
-/

namespace Chen

open Effect

variable {σ μ : Type}

/-! ## Metrics without their timings -/

/-- The metrics of an invocation, timings erased. -/
def ExpertMetrics.untimed (m : ExpertMetrics) : ExpertMetrics :=
  { m with latencyMs := 0, cacheTransferMs := 0 }

/-- Aggregate metrics, timings erased. -/
def AggregateMetrics.untimed (a : AggregateMetrics) : AggregateMetrics :=
  { a with expertMetrics := a.expertMetrics.map ExpertMetrics.untimed, totalLatencyMs := 0 }

/-- Two answers of `invoke` agree up to timings. -/
structure SameAnswer (a b : String × Option KVCache × ExpertMetrics) : Prop where
  output : a.1 = b.1
  cache : a.2.1 = b.2.1
  metrics : a.2.2.untimed = b.2.2.untimed

/-- Two results agree up to timings. -/
structure SameResult (a b : PipelineResult) : Prop where
  output : a.output = b.output
  perExpert : a.perExpert.map ExpertMetrics.untimed = b.perExpert.map ExpertMetrics.untimed
  metrics : a.metrics.untimed = b.metrics.untimed
  selectedExperts : a.selectedExperts = b.selectedExperts

/-- Adding metrics, up to the latency. -/
theorem AggregateMetrics.untimed_add_eq (a : AggregateMetrics) (m : ExpertMetrics) :
    (a.add m).untimed = { a.untimed.add m.untimed with totalLatencyMs := 0 } := by
  simp only [untimed, add, List.map_append, List.map_singleton, ExpertMetrics.untimed]
  rfl

/-- Finishing does not look at the latency. -/
theorem AggregateMetrics.untimed_finalize (a : AggregateMetrics) (experts : List (Expert σ)) :
    (a.finalize experts).untimed = a.untimed.finalize experts := by
  have hused : a.untimed.kvUsed = a.kvUsed := by
    rw [kvUsed, untimed, List.countP_map]
    rfl
  have hok : a.untimed.kvOk = a.kvOk := by
    rw [kvOk, untimed, List.countP_map]
    rfl
  rw [finalize, finalize, hused, hok]
  rfl

/-- Metrics that are equal up to the latency are so after an addition. -/
theorem AggregateMetrics.untimed_add {a b : AggregateMetrics} {m n : ExpertMetrics}
    (hab : a.untimed = b.untimed) (hmn : m.untimed = n.untimed) :
    (a.add m).untimed = (b.add n).untimed := by
  rw [untimed_add_eq, untimed_add_eq, hab, hmn]

/-! ## States of two runs -/

/-- Two runs are at the same point: same world, same calls so far, memories related by `M`. -/
structure SameRun (M : μ → μ → Prop) (s t : RunState σ μ) : Prop where
  world : s.world = t.world
  calls : s.calls = t.calls
  memory : M s.memory t.memory

variable {M : μ → μ → Prop}

/-- Two runs may read different clocks. -/
theorem perfCounter_simulates :
    Simulates (SameRun M) (fun _ _ => True) (perfCounter : Run σ μ ℚ) perfCounter :=
  fun _ _ hst => ⟨⟨hst.world, hst.calls, hst.memory⟩, .ok trivial⟩

/-- A timed program takes two runs to the same but for the time. -/
theorem timed_simulates {α β : Type} {Q : α → β → Prop} {x : Run σ μ α} {y : Run σ μ β}
    (h : Simulates (SameRun M) Q x y) :
    Simulates (SameRun M) (fun a b => Q a.1 b.1) (timed x) (timed y) := by
  refine perfCounter_simulates.bind fun _ _ _ => h.bind fun a b hab => ?_
  exact perfCounter_simulates.bind fun _ _ _ => Simulates.pure hab

namespace Expert

variable (e : Expert σ)

/-- A backend call takes two runs to the same. -/
theorem call_simulates {α : Type} (op : Except Exn α → Op) (act : EStateM Exn σ α) :
    Simulates (SameRun M) (· = ·) (e.call op act : Run σ μ α) (e.call op act) := by
  intro s t hst
  simp only [call, ← hst.world]
  cases act s.world with
  | ok a w => exact ⟨⟨rfl, by simp [hst.calls], hst.memory⟩, .ok rfl⟩
  | error x w => exact ⟨⟨rfl, by simp [hst.calls], hst.memory⟩, .error x⟩

/-- The cache of an answer does not depend on the clock. -/
theorem outputCache_simulates (text output : String) :
    Simulates (SameRun M) (· = ·) (e.outputCache text output : Run σ μ (Option KVCache))
      (e.outputCache text output) := by
  unfold outputCache
  split
  · refine (e.call_simulates _ _).attempt.bind fun a b hab => ?_
    cases hab with
    | ok h => exact Simulates.pure (congrArg some h)
    | error x => exact Simulates.pure rfl
  · exact Simulates.pure rfl

/-- Nor do the tokens. -/
theorem meterTokens_simulates (text output : String) :
    Simulates (SameRun M) (· = ·) (e.meterTokens text output : Run σ μ (ℤ × ℤ))
      (e.meterTokens text output) := by
  unfold meterTokens
  cases e.backend.countTokens with
  | none => exact Simulates.pure rfl
  | some count =>
    refine Simulates.bind (Q := Agree (· = ·)) (Simulates.attempt ?_) fun a b hab => ?_
    · refine (e.call_simulates _ _).bind fun i _ hi => ?_
      subst hi
      refine (e.call_simulates _ _).bind fun o _ ho => ?_
      subst ho
      exact Simulates.pure rfl
    · cases hab with
      | ok h => exact Simulates.pure h
      | error x => exact Simulates.pure rfl

/-- The end of an `invoke` depends on the clock in its latency alone. -/
theorem conclude_simulates (text output : String) (l₁ c₁ l₂ c₂ : ℚ) (usedKV succeeded : Bool) :
    Simulates (SameRun M) SameAnswer
      (e.conclude text output l₁ c₁ usedKV succeeded :
        Run σ μ (String × Option KVCache × ExpertMetrics))
      (e.conclude text output l₂ c₂ usedKV succeeded) := by
  refine (e.outputCache_simulates text output).bind fun cache _ hcache => ?_
  subst hcache
  refine (e.meterTokens_simulates text output).bind fun toks _ htoks => ?_
  subst htoks
  exact Simulates.pure ⟨rfl, rfl, rfl⟩

/-- So does an `invoke` on a text. -/
theorem invokeText_simulates (text : String) (maxTokens : ℤ) :
    Simulates (SameRun M) SameAnswer
      (e.invokeText text maxTokens : Run σ μ (String × Option KVCache × ExpertMetrics))
      (e.invokeText text maxTokens) := by
  refine (timed_simulates (e.call_simulates _ _)).bind ?_
  rintro ⟨output, l₁⟩ ⟨_, l₂⟩ rfl
  exact e.conclude_simulates text output l₁ 0 l₂ 0 false true

/-- So does an `invoke` on a cache. -/
theorem invokeCache_simulates (cache : KVCache) (maxTokens : ℤ) :
    Simulates (SameRun M) SameAnswer
      (e.invokeCache cache maxTokens : Run σ μ (String × Option KVCache × ExpertMetrics))
      (e.invokeCache cache maxTokens) := by
  refine (timed_simulates (e.call_simulates _ _).attempt).bind ?_
  rintro ⟨r, c₁⟩ ⟨r', c₂⟩ (hr : Agree _ r r')
  cases hr with
  | ok h =>
    subst h
    refine (timed_simulates (e.call_simulates _ _)).bind ?_
    rintro ⟨output, l₁⟩ ⟨_, l₂⟩ rfl
    exact e.conclude_simulates _ output l₁ c₁ l₂ c₂ true true
  | error x =>
    refine (timed_simulates (e.call_simulates _ _)).bind ?_
    rintro ⟨output, l₁⟩ ⟨_, l₂⟩ rfl
    exact e.conclude_simulates _ output l₁ c₁ l₂ c₂ false false

/-- `invoke` answers the same whatever the clock shows. -/
theorem invoke_simulates (prompt : Option String) (cache : Option KVCache) (maxTokens : ℤ) :
    Simulates (SameRun M) SameAnswer
      (e.invoke prompt cache maxTokens : Run σ μ (String × Option KVCache × ExpertMetrics))
      (e.invoke prompt cache maxTokens) := by
  cases cache with
  | none =>
    cases prompt with
    | none => exact Simulates.throw _
    | some text => exact e.invokeText_simulates text maxTokens
  | some cache =>
    rw [invoke_cache]
    split
    · exact e.invokeCache_simulates cache maxTokens
    · exact e.invokeText_simulates cache.sourceText maxTokens

end Expert

end Chen
