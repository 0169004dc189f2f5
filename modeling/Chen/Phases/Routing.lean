import Chen.Core.Pipeline

/-!
# Phase 3: dynamic routing

A router picks the experts for the prompt; the chosen subset is run with text handoff or with
KV-cache handoff.
-/

namespace Chen

open Effect

/-- A router, as the pipeline sees it. `name` is what `getattr(router, "name", …)` finds. -/
structure Router (σ : Type) where
  name : Option String
  route : String → List (Expert σ) → Except Exn (List String)

/-- The `handoff` setting. -/
inductive Handoff where
  | text
  | kvCache
deriving DecidableEq, Repr

/-- The literal behind a `Handoff`. -/
def Handoff.value : Handoff → String
  | .text => "text"
  | .kvCache => "kv_cache"

/-- Phase 3: dynamic routing. -/
structure RoutingPipeline (σ : Type) extends Pipeline σ where
  router : Router σ
  handoff : Handoff := .kvCache
  maxTokensPerExpert : ℤ := 256
  writeIntermediateToMemory : Bool := true
  memoryRetrieveK : ℤ := 2
  fallbackToText : Bool := true

namespace RoutingPipeline

variable {σ μ : Type}

/-- The constructor with its `__post_init__`, where the router may be missing. -/
def create (experts : List (Expert σ)) (cost : CostModel) (router : Option (Router σ))
    (handoff : Handoff) (maxTokensPerExpert : ℤ) (writeIntermediateToMemory : Bool)
    (memoryRetrieveK : ℤ) (fallbackToText : Bool) : Except Exn (RoutingPipeline σ) := do
  let base ← Pipeline.create experts cost
  match router with
  | none =>
    .error (.value ("RoutingPipeline requires a `router`. " ++
      "Use Router.from_experts(experts) to build one."))
  | some router =>
    pure
      { toPipeline := base, router, handoff, maxTokensPerExpert, writeIntermediateToMemory,
        memoryRetrieveK, fallbackToText }

variable (p : RoutingPipeline σ)

/-- The experts to run: the router's, or the first synthesizer, or the first expert. -/
def selectNames (prompt : String) : Except Exn (List String) := do
  let selected ← p.router.route prompt p.experts
  if selected.isEmpty then
    match p.experts.find? (·.role.value = "synthesizer") with
    | some e => pure [e.name]
    | none => pure ((p.experts.head?.map (·.name)).toList)
  else pure selected

variable [Memory μ]

/-- The first expert encodes the prompt with the retrieved memory in front of it and decodes from
that cache. Any failure of the two starts over on text. -/
def first (expert : Expert σ) (maxTokens : ℤ) (prompt : String) (textMode : Bool) :
    Run σ μ Invocation := do
  if !textMode && expert.capabilities.supportsKVCache then
    let (augmented, entriesRead) ← retrieveContext p.memoryRetrieveK prompt
    let tried ← attempt do
      let cache ← expert.encode augmented
      let answer ← expert.invoke none (some cache) maxTokens
      pure (cache, answer)
    match tried with
    | .ok (cache, output, outCache, m) =>
      pure
        { output, outCache, metrics := m, currentCache := some cache, textMode := false,
          entriesRead }
    | .error _ =>
      -- `encode` or `invoke` raised, and the memory is asked once more
      let (output, outCache, m) ←
        invokeExpert expert (some prompt) none maxTokens p.memoryRetrieveK
      pure
        { output, outCache, metrics := m, currentCache := none, textMode := true, entriesRead }
  else
    -- an expert without KV support turns the rest of the run to text as well
    let (output, outCache, m) ←
      invokeExpert expert (some prompt) none maxTokens p.memoryRetrieveK
    pure { output, outCache, metrics := m, currentCache := none, textMode := true }

/-- One iteration of the loop, for the `i`-th of `n` selected names. -/
def step (prompt : String) (n : ℕ) (st : HandoffProgress) (item : String × ℕ) :
    Run σ μ HandoffProgress := do
  let expert ← liftExcept (p.getExpert item.1)
  let isLast := item.2 + 1 == n
  let (maxTokens, kwargs) := st.kwargs.popMaxTokens p.maxTokensPerExpert
  let inv ←
    (if item.2 = 0 then p.first expert maxTokens prompt st.textMode
     else handOver expert p.fallbackToText maxTokens st)
  recordHandoff expert isLast p.writeIntermediateToMemory kwargs st inv

/-- `RoutingPipeline.run`. -/
def run (prompt : String) (kwargs : Kwargs) : Run σ μ PipelineResult := do
  let selected ← liftExcept (p.selectNames prompt)
  writePrompt p.writeIntermediateToMemory prompt
  let st ← selected.zipIdx.foldlM (p.step prompt selected.length)
    { metrics := { cost := p.cost }, currentText := prompt
      textMode := p.handoff = .text, kwargs }
  let experts ← liftExcept (p.getExperts selected)
  pure
    { output := st.currentText
      metrics := st.metrics.finalize experts
      perExpert := st.perExpert
      selectedExperts := selected
      metadata :=
        { phase := 3, handoff := p.handoff.value
          router := some (p.router.name.getD "unknown")
          textModeFallback := some st.textMode, selectedExperts := some selected } }

end RoutingPipeline

end Chen
