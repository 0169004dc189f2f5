import Chen.Core.Config
import Chen.Core.Expert
import Chen.Core.Memory
import Mathlib.Algebra.BigOperators.Group.List.Basic
import Mathlib.Algebra.GroupWithZero.Nat

/-!
# Pipelines: metrics, results and the base class

A pipeline orchestrates a sequence of experts. The three phases share the aggregate metrics, the
lookup of experts by name and the memory augmentation defined here.
-/

namespace Chen

open Effect

/-- Pipeline-level aggregate metrics across all experts invoked. -/
structure AggregateMetrics where
  expertMetrics : List ExpertMetrics := []
  totalInputTokens : ℤ := 0
  totalOutputTokens : ℤ := 0
  totalLatencyMs : ℚ := 0
  totalParamsInvokedM : ℕ := 0
  distinctParamsInvokedM : ℕ := 0
  totalCostUsd : ℚ := 0
  kvCacheTransfers : ℕ := 0
  kvCacheFailures : ℕ := 0
  latentNuanceScore : ℚ := 0
  memoryEntriesRead : ℤ := 0
  memoryEntriesWritten : ℕ := 0
  cost : CostModel
deriving DecidableEq

namespace AggregateMetrics

/-- Record one invocation. -/
def add (a : AggregateMetrics) (m : ExpertMetrics) : AggregateMetrics :=
  { a with
    expertMetrics := a.expertMetrics ++ [m]
    totalInputTokens := a.totalInputTokens + m.inputTokens
    totalOutputTokens := a.totalOutputTokens + m.outputTokens
    totalLatencyMs := a.totalLatencyMs + (m.latencyMs + m.cacheTransferMs)
    totalParamsInvokedM := a.totalParamsInvokedM + m.paramsM
    kvCacheTransfers := if m.usedKVCache then a.kvCacheTransfers + 1 else a.kvCacheTransfers
    kvCacheFailures :=
      if m.usedKVCache && !m.cacheTransferSucceeded then a.kvCacheFailures + 1
      else a.kvCacheFailures
    totalCostUsd := a.totalCostUsd + a.cost.costFor m.inputTokens m.outputTokens m.paramsM }

/-- The number of invocations that used a KV-cache. -/
def kvUsed (a : AggregateMetrics) : ℕ := a.expertMetrics.countP (·.usedKVCache)

/-- The number of invocations that used a KV-cache after a transfer that succeeded. -/
def kvOk (a : AggregateMetrics) : ℕ :=
  a.expertMetrics.countP fun m => m.usedKVCache && m.cacheTransferSucceeded

/-- Recompute the derived fields once all experts have been added. -/
def finalize {σ : Type} (a : AggregateMetrics) (distinctExperts : List (Expert σ)) :
    AggregateMetrics :=
  { a with
    distinctParamsInvokedM := (distinctExperts.map (·.paramsM)).sum
    latentNuanceScore := if 0 < a.kvUsed then a.kvOk / a.kvUsed else a.latentNuanceScore }

/-- `total_tokens`. -/
def totalTokens (a : AggregateMetrics) : ℤ := a.totalInputTokens + a.totalOutputTokens

/-- `epu`: the capacity-utilization EPU. -/
def epu (a : AggregateMetrics) : ℚ :=
  if a.totalParamsInvokedM = 0 then 0 else a.distinctParamsInvokedM / a.totalParamsInvokedM

end AggregateMetrics

/-- `result.metadata`. A key that a phase does not set is `none`. -/
structure Metadata where
  phase : ℕ
  handoff : String
  router : Option String := none
  textModeFallback : Option Bool := none
  sequence : Option (List String) := none
  selectedExperts : Option (List String) := none
deriving DecidableEq

/-- The return type of every `pipeline.run()` call. -/
structure PipelineResult where
  output : String
  metrics : AggregateMetrics
  perExpert : List ExpertMetrics
  selectedExperts : List String
  metadata : Metadata
deriving DecidableEq

/-- The keyword arguments of `run`. Only `max_tokens` is ever read. -/
structure Kwargs where
  maxTokens : Option ℤ := none
deriving DecidableEq

/-- `kwargs.pop("max_tokens", default)`: the value, and the dict without the key. -/
def Kwargs.popMaxTokens (kwargs : Kwargs) (default : ℤ) : ℤ × Kwargs :=
  (kwargs.maxTokens.getD default, { kwargs with maxTokens := none })

/-- The fields of `Pipeline`. `__post_init__` refuses an empty list of experts. -/
structure Pipeline (σ : Type) where
  experts : List (Expert σ)
  cost : CostModel
  experts_ne : experts ≠ []

/-- The text prepended to a prompt when memory entries were retrieved. -/
def augment (entries : List MemoryEntry) (prompt : String) : String :=
  "Context from shared memory:\n" ++
    String.intercalate "\n" (entries.map fun e => "- [" ++ e.role ++ "] " ++ e.text) ++
    "\n\n---\n\n" ++ prompt

namespace Pipeline

variable {σ μ : Type}

/-- The constructor of the base class. -/
def create (experts : List (Expert σ)) (cost : CostModel) : Except Exn (Pipeline σ) :=
  if h : experts = [] then .error (.value "Pipeline requires at least one expert.")
  else .ok ⟨experts, cost, h⟩

/-- The keys of `experts_by_name`, in insertion order. -/
def names (p : Pipeline σ) : List String := (p.experts.map (·.name)).eraseDups

/-- `experts_by_name.get(name)`. A later expert replaces an earlier one of the same name. -/
def find (p : Pipeline σ) (name : String) : Option (Expert σ) :=
  p.experts.reverse.find? (·.name = name)

/-- `get_expert`. -/
def getExpert (p : Pipeline σ) (name : String) : Except Exn (Expert σ) :=
  match p.find name with
  | some e => .ok e
  | none => .error (.expertNotFound name p.names)

/-- The experts of a sequence, as the pipelines pass them to `finalize`. -/
def getExperts (p : Pipeline σ) (names : List String) : Except Exn (List (Expert σ)) :=
  names.mapM p.getExpert

end Pipeline

/-- A static sequence that `__post_init__` accepted: every name is an expert of the pipeline, and
an empty argument has been replaced by all of them. -/
structure ExpertSequence {σ : Type} (p : Pipeline σ) where
  names : List String
  names_ne : names ≠ []
  known : ∀ n ∈ names, (p.find n).isSome

/-- The part of `__post_init__` that `CascadePipeline` and `KVPassPipeline` share. -/
def ExpertSequence.create {σ : Type} (p : Pipeline σ) (cls : String) (sequence : List String) :
    Except Exn (ExpertSequence p) :=
  let names := if sequence.isEmpty then p.experts.map (·.name) else sequence
  match h : names.filter fun n => (p.find n).isNone with
  | [] =>
    .ok
      { names
        names_ne := by
          have hne := p.experts_ne
          cases sequence with
          | nil => simpa [names] using hne
          | cons n ns => simp [names]
        known := by
          intro n hn
          have := List.filter_eq_nil_iff.mp h n hn
          simpa [Option.isNone_iff_eq_none, Option.isSome_iff_ne_none] using this }
  | missing => .error (.unknownExperts cls missing p.names)

/-- The loop variables that every phase has. -/
structure Progress where
  metrics : AggregateMetrics
  perExpert : List ExpertMetrics := []
  currentText : String
  kwargs : Kwargs
deriving DecidableEq

/-- The loop variables of the phases that hand caches over. -/
structure HandoffProgress extends Progress where
  currentCache : Option KVCache := none
  textMode : Bool
deriving DecidableEq

/-- What one iteration computed before it is recorded: the expert's answer, and the loop's
`current_cache` and `text_mode` at that point. -/
structure Invocation where
  output : String
  outCache : Option KVCache
  metrics : ExpertMetrics
  currentCache : Option KVCache
  textMode : Bool
  entriesRead : ℤ := 0
deriving DecidableEq

section Run

variable {σ μ : Type} [Memory μ]

/-- `_invoke_expert`: memory augmentation on the text path, then `invoke`. -/
def invokeExpert (expert : Expert σ) (prompt : Option String) (cache : Option KVCache)
    (maxTokens memoryRetrieveK : ℤ) : Run σ μ (String × Option KVCache × ExpertMetrics) := do
  let s ← get
  let augmented := prompt.map fun text =>
    if 0 < memoryRetrieveK then
      let entries := Memory.retrieve text memoryRetrieveK s.memory
      if entries.isEmpty then text else augment entries text
    else text
  expert.invoke augmented cache maxTokens

/-- The prompt that the first expert of a KV run encodes, with the retrieved entries in front of
it, and the number of entries counted as read: `k` as soon as there is one. -/
def retrieveContext (k : ℤ) (prompt : String) : Run σ μ (String × ℤ) := do
  let s ← get
  let entries := if 0 < k then Memory.retrieve prompt k s.memory else []
  if entries.isEmpty then pure (prompt, 0) else pure (augment entries prompt, k)

/-- `self.memory.write(entry)`. -/
def writeMemory (entry : MemoryEntry) : Run σ μ Unit :=
  modify fun s => { s with memory := (Memory.write entry s.memory).2 }

/-- The user's prompt, written to memory before the first expert runs. -/
def writePrompt (enabled : Bool) (prompt : String) : Run σ μ Unit :=
  if enabled then writeMemory { text := prompt, role := "user", expertName := "user" } else pure ()

/-- The entry an expert's step writes to memory. -/
def stepEntry (expert : Expert σ) (text : String) (isLast : Bool) : MemoryEntry :=
  { text
    role := expert.role.value
    expertName := expert.name
    confidence := if isLast then 1 else 9 / 10 }

/-- The step of `KVPassPipeline` and `RoutingPipeline` for every expert after the first. The bare
`raise` has no exception to re-raise. -/
def handOver (expert : Expert σ) (fallbackToText : Bool) (maxTokens : ℤ)
    (st : HandoffProgress) : Run σ μ Invocation := do
  match st.textMode, st.currentCache with
  | false, some cache =>
    let (output, outCache, m) ← expert.invoke none (some cache) maxTokens
    if m.cacheTransferSucceeded then
      pure { output, outCache, metrics := m, currentCache := some cache, textMode := false }
    else if fallbackToText then
      let (output, outCache, m) ← invokeExpert expert (some st.currentText) none maxTokens 0
      pure { output, outCache, metrics := m, currentCache := some cache, textMode := true }
    else
      throw (.runtime "No active exception to reraise")
  | textMode, currentCache =>
    let (output, outCache, m) ← invokeExpert expert (some st.currentText) none maxTokens 0
    pure { output, outCache, metrics := m, currentCache, textMode }

/-- The end of an iteration of `KVPassPipeline` and `RoutingPipeline`: metrics, the memory entry
(the text behind the cache, or the text the expert was given), and the next loop variables. -/
def recordHandoff (expert : Expert σ) (isLast write : Bool) (kwargs : Kwargs)
    (st : HandoffProgress) (inv : Invocation) : Run σ μ HandoffProgress := do
  let metrics := st.metrics.add inv.metrics
  let metrics := { metrics with memoryEntriesRead := metrics.memoryEntriesRead + inv.entriesRead }
  let metrics :=
    if write then { metrics with memoryEntriesWritten := metrics.memoryEntriesWritten + 1 }
    else metrics
  if write then
    let src := (inv.currentCache.map (·.sourceText)).getD st.currentText
    writeMemory (stepEntry expert src isLast)
  pure
    { metrics
      perExpert := st.perExpert ++ [inv.metrics]
      currentCache := inv.outCache
      currentText := inv.output
      textMode := inv.textMode
      kwargs }

end Run

end Chen
