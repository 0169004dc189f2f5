import Chen.Library.Effect
import Chen.Python.Dict
import Chen.Python.Exception
import Mathlib.Algebra.BigOperators.Group.List.Basic
import Mathlib.Data.Int.Basic
import Mathlib.Algebra.Ring.Int.Defs

/-!
# Metrics

The counters of the server and the helpers that increment them. The third-party client of Prometheus
is a parameter. The metrics of the middleware are left out.
-/

namespace Chen

/-- The counters that a served run increments, each with its labels. -/
inductive MetricCounter where
  /-- `chen_expert_invocations_total`, by `expert_name` and `role`. -/
  | expertInvocations
  /-- `chen_kv_cache_transfers_total`, by `source`, `target` and `result`. -/
  | kvTransfers
  /-- `chen_tokens_processed_total`, by `direction`. -/
  | tokensProcessed
  /-- `chen_pipeline_runs_total`, by `phase`. -/
  | pipelineRuns
deriving DecidableEq

/-- The client of Prometheus, on registries of type `Γ`. -/
class Prometheus (Γ : Type) where
  /-- `_PROM_AVAILABLE`. -/
  available : Bool
  /-- The registry of a new process. -/
  empty : Γ
  /-- `counter.labels(...).inc(amount)`. -/
  inc (counter : MetricCounter) (labels : List String) (amount : ℤ) : EStateM Exn Γ Unit
  /-- The value of a counter, summed over its labels. -/
  total (registry : Γ) (counter : MetricCounter) : ℤ

namespace Prometheus

/-- What the client documents: counters start at zero, `inc` adds the amount to its counter, and an
amount must not be negative. -/
structure Lawful (Γ : Type) [Prometheus Γ] : Prop where
  total_empty : ∀ counter, total (empty : Γ) counter = 0
  inc_returns : ∀ (registry : Γ) counter labels {amount}, 0 ≤ amount →
    ∃ registry', inc counter labels amount registry = .ok () registry'
  total_inc : ∀ {registry registry' : Γ} {counter labels amount},
    inc counter labels amount registry = .ok () registry' →
    ∀ counter', total registry' counter' =
      total registry counter' + if counter' = counter then amount else 0

end Prometheus

open Prometheus

section Helpers

variable {Γ : Type} [Prometheus Γ]

/-- An increment, or nothing without the client. -/
def recordMetric (counter : MetricCounter) (labels : List String) (amount : ℤ) :
    EStateM Exn Γ Unit :=
  if available Γ then inc counter labels amount else pure ()

/-- `record_expert_invocation`. -/
def recordExpertInvocation (expertName role : String) : EStateM Exn Γ Unit :=
  recordMetric .expertInvocations [expertName, role] 1

/-- `record_kv_transfer`. -/
def recordKVTransfer (source target : String) (success : Bool) : EStateM Exn Γ Unit :=
  recordMetric .kvTransfers [source, target, if success then "success" else "failure"] 1

/-- `record_tokens`. -/
def recordTokens (direction : String) (count : ℤ) : EStateM Exn Γ Unit :=
  recordMetric .tokensProcessed [direction] count

/-- `record_pipeline_run`. -/
def recordPipelineRun (phase : ℕ) : EStateM Exn Γ Unit :=
  recordMetric .pipelineRuns [toString phase] 1

/-- An increment adds its amount to the total of its counter and to no other. -/
theorem total_recordMetric (hlaws : Lawful Γ) (havailable : available Γ = true)
    {counter : MetricCounter} {labels : List String} {amount : ℤ} {registry registry' : Γ}
    (h : recordMetric counter labels amount registry = .ok () registry')
    (counter' : MetricCounter) : total registry' counter' =
      total registry counter' + if counter' = counter then amount else 0 := by
  rw [recordMetric, if_pos havailable] at h
  exact hlaws.total_inc h counter'

end Helpers

/-! ## A registry of samples -/

/-- Samples by counter and labels. -/
abbrev Samples : Type := Dict (MetricCounter × List String) ℤ

/-- The sum of a counter's samples. -/
def Samples.total (samples : Samples) (counter : MetricCounter) : ℤ :=
  (samples.map fun p => if p.1.1 = counter then p.2 else 0).sum

/-- A registry in memory. -/
@[reducible] def Samples.prometheus : Prometheus Samples where
  available := true
  empty := []
  inc counter labels amount samples :=
    if amount < 0 then
      .error (.value "Counters can only be incremented by non-negative amounts.") samples
    else
      let value := (Dict.get? samples (counter, labels)).getD 0
      .ok () (Dict.set samples (counter, labels) (value + amount))
  total := Samples.total

/-- The total after one sample has changed. -/
theorem Samples.total_set (samples : Samples) (key : MetricCounter × List String) (amount : ℤ)
    (counter : MetricCounter) :
    total (Dict.set samples key ((Dict.get? samples key).getD 0 + amount)) counter =
      total samples counter + if counter = key.1 then amount else 0 := by
  induction samples with
  | nil => simp [total, Dict.set, Dict.get?, eq_comm]
  | cons p samples ih =>
    simp only [total, Dict.set, Dict.get?] at ih ⊢
    by_cases hp : p.1 = key
    · subst hp
      simp only [if_true, List.map_cons, List.sum_cons, Option.getD_some, eq_comm]
      split <;> omega
    · simp only [if_neg hp, List.map_cons, List.sum_cons, ih, Int.add_assoc]

/-- A dictionary of samples is a lawful client. -/
theorem Samples.lawful : letI := Samples.prometheus; Lawful Samples := by
  let _ := Samples.prometheus
  refine ⟨fun _ => rfl, ?returns, ?total⟩
  case returns =>
    intro samples counter labels amount hle
    exact ⟨_, if_neg (by omega)⟩
  case total =>
    intro samples samples' counter labels amount h counter'
    by_cases hlt : amount < 0
    · cases (if_pos hlt).symm.trans h
    · cases (if_neg hlt).symm.trans h
      exact Samples.total_set samples (counter, labels) amount counter'

end Chen
