import Chen.Core.Pipeline

/-!
# Phase 1: static cascading

A fixed sequence of experts. Each expert's text output is the next expert's prompt.
-/

namespace Chen

open Effect

/-- Phase 1: static cascade. -/
structure CascadePipeline (σ : Type) extends Pipeline σ where
  sequence : ExpertSequence toPipeline
  maxTokensPerExpert : ℤ := 256
  writeIntermediateToMemory : Bool := true
  memoryRetrieveK : ℤ := 2

namespace CascadePipeline

variable {σ μ : Type}

/-- The constructor with its `__post_init__`. -/
def create (experts : List (Expert σ)) (cost : CostModel) (sequence : List String)
    (maxTokensPerExpert : ℤ) (writeIntermediateToMemory : Bool) (memoryRetrieveK : ℤ) :
    Except Exn (CascadePipeline σ) := do
  let base ← Pipeline.create experts cost
  let sequence ← ExpertSequence.create base "CascadePipeline" sequence
  pure
    { toPipeline := base, sequence, maxTokensPerExpert, writeIntermediateToMemory,
      memoryRetrieveK }

variable [Memory μ] (p : CascadePipeline σ)

/-- One iteration of the loop, for the `i`-th name of the sequence. -/
def step (st : Progress) (item : String × ℕ) : Run σ μ Progress := do
  let expert ← liftExcept (p.getExpert item.1)
  let isLast := item.2 + 1 == p.sequence.names.length
  let (maxTokens, kwargs) := st.kwargs.popMaxTokens p.maxTokensPerExpert
  let (output, _, m) ←
    invokeExpert expert (some st.currentText) none maxTokens p.memoryRetrieveK
  let metrics := st.metrics.add m
  if p.writeIntermediateToMemory then writeMemory (stepEntry expert output isLast)
  let metrics :=
    if p.writeIntermediateToMemory then
      { metrics with memoryEntriesWritten := metrics.memoryEntriesWritten + 1 }
    else metrics
  let metrics :=
    if 0 < p.memoryRetrieveK then
      { metrics with memoryEntriesRead := metrics.memoryEntriesRead + p.memoryRetrieveK }
    else metrics
  pure
    { metrics
      perExpert := st.perExpert ++ [m]
      currentText := output
      kwargs }

/-- `CascadePipeline.run`. -/
def run (prompt : String) (kwargs : Kwargs) : Run σ μ PipelineResult := do
  writePrompt p.writeIntermediateToMemory prompt
  let st ← p.sequence.names.zipIdx.foldlM p.step
    { metrics := { cost := p.cost }, currentText := prompt, kwargs }
  let experts ← liftExcept (p.getExperts p.sequence.names)
  pure
    { output := st.currentText
      metrics := st.metrics.finalize experts
      perExpert := st.perExpert
      selectedExperts := p.sequence.names
      metadata := { phase := 1, handoff := "text", sequence := some p.sequence.names } }

end CascadePipeline

end Chen
