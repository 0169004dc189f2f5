import Chen.Core.Pipeline

/-!
# Phase 2: KV-cache handoff

The sequence of phase 1, but each expert receives the previous expert's cache. A step whose
transfer fails is run again on text, and the rest of the run stays on text.
-/

namespace Chen

open Effect

/-- Phase 2: KV-cache handoff. -/
structure KVPassPipeline (σ : Type) extends Pipeline σ where
  sequence : ExpertSequence toPipeline
  maxTokensPerExpert : ℤ := 256
  writeIntermediateToMemory : Bool := true
  memoryRetrieveK : ℤ := 2
  fallbackToText : Bool := true

namespace KVPassPipeline

variable {σ μ : Type}

/-- The constructor with its `__post_init__`. -/
def create (experts : List (Expert σ)) (cost : CostModel) (sequence : List String)
    (maxTokensPerExpert : ℤ) (writeIntermediateToMemory : Bool) (memoryRetrieveK : ℤ)
    (fallbackToText : Bool) : Except Exn (KVPassPipeline σ) := do
  let base ← Pipeline.create experts cost
  let sequence ← ExpertSequence.create base "KVPassPipeline" sequence
  pure
    { toPipeline := base, sequence, maxTokensPerExpert, writeIntermediateToMemory,
      memoryRetrieveK, fallbackToText }

/-- `expert.backend.encode(prompt)`, where a backend without KV support or a failure leaves no
cache. -/
def encodePrompt (expert : Expert σ) (prompt : String) : Run σ μ (Option KVCache) := do
  if expert.capabilities.supportsKVCache then
    match ← attempt (expert.encode prompt) with
    | .ok cache => pure (some cache)
    | .error _ => pure none
  else pure none

/-- Encode again when memory was prepended; a failure keeps the unaugmented cache. -/
def reencode (expert : Expert σ) (cache : KVCache) (prompt augmented : String) :
    Run σ μ KVCache := do
  if augmented ≠ prompt then
    match ← attempt (expert.encode augmented) with
    | .ok cache' => pure cache'
    | .error _ => pure cache
  else pure cache

variable [Memory μ] (p : KVPassPipeline σ)

/-- The first expert encodes the prompt, and once more with the retrieved memory in front of it. A
backend that cannot encode starts the run in text mode. -/
def first (expert : Expert σ) (maxTokens : ℤ) (prompt : String) : Run σ μ Invocation := do
  match ← encodePrompt expert prompt with
  | none =>
    let (output, outCache, m) ← expert.invoke (some prompt) none maxTokens
    pure { output, outCache, metrics := m, currentCache := none, textMode := true }
  | some cache =>
    let (augmented, entriesRead) ← retrieveContext p.memoryRetrieveK prompt
    let current ← reencode expert cache prompt augmented
    -- the first step does not look at `cacheTransferSucceeded`
    let (output, outCache, m) ← expert.invoke none (some current) maxTokens
    pure
      { output, outCache, metrics := m, currentCache := some current, textMode := false,
        entriesRead }

/-- One iteration of the loop, for the `i`-th name of the sequence. -/
def step (prompt : String) (st : HandoffProgress) (item : String × ℕ) :
    Run σ μ HandoffProgress := do
  let expert ← liftExcept (p.getExpert item.1)
  let isLast := item.2 + 1 == p.sequence.names.length
  let (maxTokens, kwargs) := st.kwargs.popMaxTokens p.maxTokensPerExpert
  let inv ←
    (if item.2 = 0 then p.first expert maxTokens prompt
     else handOver expert p.fallbackToText maxTokens st)
  recordHandoff expert isLast p.writeIntermediateToMemory kwargs st inv

/-- `KVPassPipeline.run`. -/
def run (prompt : String) (kwargs : Kwargs) : Run σ μ PipelineResult := do
  writePrompt p.writeIntermediateToMemory prompt
  let st ← p.sequence.names.zipIdx.foldlM (p.step prompt)
    { metrics := { cost := p.cost }, currentText := prompt, textMode := false, kwargs }
  let experts ← liftExcept (p.getExperts p.sequence.names)
  pure
    { output := st.currentText
      metrics := st.metrics.finalize experts
      perExpert := st.perExpert
      selectedExperts := p.sequence.names
      metadata :=
        { phase := 2, handoff := "kv_cache", textModeFallback := some st.textMode
          sequence := some p.sequence.names } }

end KVPassPipeline

end Chen
