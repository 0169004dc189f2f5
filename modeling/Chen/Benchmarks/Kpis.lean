import Chen.Core.Pipeline
import Mathlib.Algebra.Order.Field.Rat
import Mathlib.Tactic.Positivity
import Mathlib.Tactic.Ring

/-!
# Key performance indicators

A run is compared with a monolith by its cost for a million tokens, by the parameters it used, and
by its accuracy for its latency. Numbers are exact rationals.
-/

namespace Chen

/-- Metrics of the monolith that a run is compared with. -/
structure BaselineMetrics where
  paramsM : ℕ := 70000
  inputTokens : ℤ := 200
  outputTokens : ℤ := 300
  latencyMs : ℚ := 1500
  accuracy : ℚ := 85 / 100

/-- `KPIReport`, without the fields that a caller attaches. -/
structure KPIReport where
  chenCostPer1M : ℚ
  chenLatencyMs : ℚ
  chenAccuracy : ℚ
  chenParamsInvokedM : ℕ
  chenDistinctParamsM : ℕ
  baselineCostPer1M : ℚ
  baselineLatencyMs : ℚ
  baselineAccuracy : ℚ
  baselineParamsM : ℕ
  epu : ℚ
  costReductionPct : ℚ
  latencyToAccuracy : ℚ
  baselineLatencyToAccuracy : ℚ
  costTargetMet : Bool
  epuTargetMet : Bool
  latencyTargetMet : Bool
deriving DecidableEq

/-- `KPIs`: the rates and the targets. -/
structure KPIs where
  cost : CostModel := {}
  epuTarget : ℚ := 3
  costReductionTargetPct : ℚ := 80

namespace KPIs

/-- `compute`. -/
def compute (kpis : KPIs) (chenTotalTokens : ℤ) (chenTotalCostUsd chenLatencyMs chenAccuracy : ℚ)
    (chenParamsInvokedM chenDistinctParamsM : ℕ) (baseline : BaselineMetrics)
    (nQueries : ℤ := 1) : KPIReport :=
  let q : ℚ := (max 1 nQueries : ℤ)
  let chenTokensPerQ := chenTotalTokens / q
  let chenCostPerQ := chenTotalCostUsd / q
  let chenCostPer1M :=
    if 0 < chenTokensPerQ then chenCostPerQ / chenTokensPerQ * 1000000 else 0
  let chenLatencyPerQ := chenLatencyMs / q
  let baselineTokens := baseline.inputTokens + baseline.outputTokens
  let baselineCostPerQ :=
    kpis.cost.costFor baseline.inputTokens baseline.outputTokens baseline.paramsM
  let baselineCostPer1M :=
    if 0 < baselineTokens then baselineCostPerQ / baselineTokens * 1000000 else 0
  let epu : ℚ := if 0 < chenDistinctParamsM then baseline.paramsM / chenDistinctParamsM else 0
  let costReductionPct :=
    if 0 < baselineCostPer1M then
      (baselineCostPer1M - chenCostPer1M) / baselineCostPer1M * 100
    else 0
  let lta := if 0 < chenLatencyPerQ then chenAccuracy / chenLatencyPerQ * 1000 else 0
  let baselineLta :=
    if 0 < baseline.latencyMs then baseline.accuracy / baseline.latencyMs * 1000 else 0
  { chenCostPer1M, chenAccuracy, chenParamsInvokedM, chenDistinctParamsM, baselineCostPer1M, epu
    costReductionPct
    chenLatencyMs := chenLatencyPerQ
    baselineLatencyMs := baseline.latencyMs
    baselineAccuracy := baseline.accuracy
    baselineParamsM := baseline.paramsM
    latencyToAccuracy := lta
    baselineLatencyToAccuracy := baselineLta
    costTargetMet := kpis.costReductionTargetPct ≤ costReductionPct
    epuTargetMet := kpis.epuTarget ≤ epu
    latencyTargetMet := baselineLta ≤ lta }

end KPIs

/-! ## The cost of a run -/

/-- Without the tax, a cost is linear in the tokens, whatever the parameters. -/
theorem CostModel.costFor_add (c : CostModel) (i i' o o' : ℤ) (p p' p'' : ℕ) :
    c.costFor (i + i') (o + o') p'' = c.costFor i o p + c.costFor i' o' p' := by
  simp only [costFor, Bool.false_and, Bool.false_eq_true, if_false]
  push_cast
  ring

/-- The cost of tokens is linear, and ignores the parameters. -/
theorem CostModel.costFor_mul (c : CostModel) (q i o : ℤ) (p p' : ℕ) :
    c.costFor (q * i) (q * o) p = q * c.costFor i o p' := by
  simp only [costFor, Bool.false_and, Bool.false_eq_true, if_false]
  push_cast
  ring

/-- The metrics of a run's invocations, aggregated. -/
def aggregate (c : CostModel) (ms : List ExpertMetrics) : AggregateMetrics :=
  ms.foldl AggregateMetrics.add { cost := c }

/-- What aggregated metrics say of the tokens and their cost. -/
structure Tallied (c : CostModel) (ms : List ExpertMetrics) (a : AggregateMetrics) : Prop where
  cost_eq : a.cost = c
  input_eq : a.totalInputTokens = (ms.map (·.inputTokens)).sum
  output_eq : a.totalOutputTokens = (ms.map (·.outputTokens)).sum
  usd_eq : a.totalCostUsd = c.costFor (ms.map (·.inputTokens)).sum (ms.map (·.outputTokens)).sum

/-- One more invocation is added up. -/
theorem Tallied.add {c : CostModel} {ms : List ExpertMetrics} {a : AggregateMetrics}
    (h : Tallied c ms a) (m : ExpertMetrics) : Tallied c (ms ++ [m]) (a.add m) := by
  refine ⟨h.cost_eq, ?_, ?_, ?_⟩
  · simp [AggregateMetrics.add, h.input_eq]
  · simp [AggregateMetrics.add, h.output_eq]
  · rw [List.map_append, List.sum_append, List.map_append, List.sum_append,
      CostModel.costFor_add c _ _ _ _ 0 m.paramsM, ← h.usd_eq, AggregateMetrics.add, h.cost_eq]
    simp

/-- The metrics of a run are added up. -/
theorem aggregate_tallied (c : CostModel) (ms : List ExpertMetrics) :
    Tallied c ms (aggregate c ms) := by
  rw [aggregate]
  induction ms using List.reverseRecOn with
  | nil => exact ⟨rfl, rfl, rfl, by simp [CostModel.costFor]⟩
  | append_singleton ms m ih =>
    rw [List.foldl_append]
    exact ih.add m

/-- The parameter tax makes a monolith dearer. -/
theorem CostModel.costFor_lt_taxed {c : CostModel} (hrate : 0 < c.per1MParamsPer1KTokens) {i o : ℤ}
    (htokens : 0 < i + o) {p : ℕ} (hp : 0 < p) : c.costFor i o p < c.costFor i o p true := by
  have htax : (0 : ℚ) < p * ((i + o : ℤ) / 1000) * c.per1MParamsPer1KTokens := by
    have hp' : (0 : ℚ) < p := by exact_mod_cast hp
    have htokens' : (0 : ℚ) < (i + o : ℤ) := by exact_mod_cast htokens
    positivity
  simp only [costFor, Bool.false_and, Bool.false_eq_true, if_false, Bool.true_and,
    decide_eq_true hp, if_true]
  push_cast at htax ⊢
  exact lt_add_of_pos_right _ htax

namespace KPIs

variable {kpis : KPIs} {baseline : BaselineMetrics} {ms : List ExpertMetrics} {nQueries : ℤ}

/-- The baseline is charged for its tokens alone: a run of as many tokens a query as the baseline's
costs as much, so that the reduction is zero, whatever the parameters of either. -/
theorem costReductionPct_eq_zero
    (hinput : (ms.map (·.inputTokens)).sum = max 1 nQueries * baseline.inputTokens)
    (houtput : (ms.map (·.outputTokens)).sum = max 1 nQueries * baseline.outputTokens)
    (chenLatencyMs chenAccuracy : ℚ) (chenDistinctParamsM : ℕ) :
    (kpis.compute (aggregate kpis.cost ms).totalTokens (aggregate kpis.cost ms).totalCostUsd
      chenLatencyMs chenAccuracy (aggregate kpis.cost ms).totalParamsInvokedM chenDistinctParamsM
      baseline nQueries).costReductionPct = 0 := by
  have htally := aggregate_tallied kpis.cost ms
  have hq : ((max 1 nQueries : ℤ) : ℚ) ≠ 0 := by
    have hpos : 0 < max 1 nQueries := by omega
    exact_mod_cast hpos.ne'
  have htokens : ((aggregate kpis.cost ms).totalTokens : ℚ) / (max 1 nQueries : ℤ) =
      (baseline.inputTokens + baseline.outputTokens : ℤ) := by
    rw [AggregateMetrics.totalTokens, htally.input_eq, htally.output_eq, hinput, houtput,
      ← mul_add, Int.cast_mul, mul_div_cancel_left₀ _ hq]
  have hcost : (aggregate kpis.cost ms).totalCostUsd / (max 1 nQueries : ℤ) =
      kpis.cost.costFor baseline.inputTokens baseline.outputTokens baseline.paramsM := by
    rw [htally.usd_eq, hinput, houtput, CostModel.costFor_mul _ _ _ _ 0 baseline.paramsM,
      mul_div_cancel_left₀ _ hq]
  simp only [compute, htokens, hcost, Int.cast_pos, sub_self, zero_div, zero_mul, ite_self]

/-- One invocation of a small expert with the tokens of the default baseline. -/
def smallRun : List ExpertMetrics :=
  [{ expertName := "a", role := .analyst, paramsM := 3000, inputTokens := 200, outputTokens := 300
     latencyMs := 100 }]

/-- One invocation of a small expert. -/
theorem costReductionPct_eq_zero_small :
    (compute {} (aggregate {} smallRun).totalTokens (aggregate {} smallRun).totalCostUsd 100 1
      (aggregate {} smallRun).totalParamsInvokedM 3000 {} 1).costReductionPct = 0 :=
  @costReductionPct_eq_zero {} {} smallRun 1 (by decide) (by decide) 100 1 3000

/-- 3B parameters against 70B, for the same tokens. -/
theorem no_reduction :
    (aggregate {} smallRun).totalParamsInvokedM < ({} : BaselineMetrics).paramsM ∧
      ¬ 0 < (compute {} (aggregate {} smallRun).totalTokens (aggregate {} smallRun).totalCostUsd 100
        1 (aggregate {} smallRun).totalParamsInvokedM 3000 {} 1).costReductionPct := by
  decide +kernel

end KPIs

end Chen
