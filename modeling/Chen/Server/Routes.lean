import Chen.Backends.Mock
import Chen.Persistence.RunStore
import Chen.Phases.Runs
import Chen.Reproducibility
import Chen.Router.Logistic

/-!
# The inference endpoint

`POST /v1/infer` builds four experts and a pipeline for each request, runs the prompt, and saves
the run under an id that is derived from its config. Metrics and logging are left out.
-/

namespace Chen

open Effect

/-- Body of `POST /v1/infer`, as far as `infer` reads it, with the bounds that its validation
enforces. -/
structure InferRequest where
  prompt : String
  phase : ℕ := 1
  backend : String := "mock"
  maxTokens : ℤ := 128
  router : String := "logistic"
  saveRun : Bool := true
  prompt_length : 1 ≤ prompt.length ∧ prompt.length ≤ 100000 := by decide
  phase_range : 1 ≤ phase ∧ phase ≤ 3 := by decide
  maxTokens_range : 1 ≤ maxTokens ∧ maxTokens ≤ 4096 := by decide

theorem InferRequest.default_maxTokens_range : (1 : ℤ) ≤ 128 ∧ (128 : ℤ) ≤ 4096 := by decide

/-- A request and the readings of the clocks while it is served. -/
structure Arrival where
  request : InferRequest
  clock : ℕ → ℚ
  timestamp : String

/-- What the server runs on: the environment variables, the constructors of the backends that are
not mocks, the memory that a new pipeline starts with, and the cost model of the settings. -/
structure Deployment (σ μ : Type) where
  environ : String → Option String
  huggingFace : (modelId : String) → (paramsM : ℕ) → Except Exn (Backend σ)
  vllm : (modelId : String) → (paramsM : ℕ) → Except Exn (Backend σ)
  llamaCpp : (paramsM : ℕ) → Except Exn (Backend σ)
  memory : μ
  cost : CostModel := {}

/-- What a request changes: the backends' world and the run store. -/
structure ServerState (σ : Type) where
  world : σ
  store : RunStore := {}

/-- The config that identifies a run. -/
structure InferConfig where
  phase : ℕ
  backend : String
  router : String
  maxTokens : ℤ
  sequence : List String
deriving DecidableEq

/-- The config as the dictionary that is hashed. -/
def InferConfig.items (c : InferConfig) : List (String × Json) :=
  [("phase", .int c.phase), ("backend", .str c.backend), ("router", .str c.router),
    ("max_tokens", .int c.maxTokens), ("sequence", .list (c.sequence.map .str))]

/-- The config's hash. -/
def InferConfig.hash [Hashlib] (c : InferConfig) : String := hashConfig c.items

/-- `cfg_hash[:16]`. -/
def InferConfig.runId [Hashlib] (c : InferConfig) : String := Str.prefixTo c.hash 16

/-- One expert's metrics, in a response. -/
structure ExpertMetricsModel where
  expertName : String
  role : String
  paramsM : ℕ
  inputTokens : ℤ
  outputTokens : ℤ
  latencyMs : ℚ
  usedKVCache : Bool
deriving DecidableEq

/-- The part of an expert's metrics that a response shows. -/
def ExpertMetrics.toModel (m : ExpertMetrics) : ExpertMetricsModel where
  expertName := m.expertName
  role := m.role.value
  paramsM := m.paramsM
  inputTokens := m.inputTokens
  outputTokens := m.outputTokens
  latencyMs := m.latencyMs
  usedKVCache := m.usedKVCache

/-- Response body of `POST /v1/infer`. -/
structure InferResponse where
  output : String
  selectedExperts : List String
  perExpert : List ExpertMetricsModel
  totalTokens : ℤ
  totalCostUsd : ℚ
  totalLatencyMs : ℚ
  epu : ℚ
  kvTransfers : ℕ
  runId : String
  configHash : String
deriving DecidableEq

/-- The record that is saved: the request, and what the response tells of its run. -/
def InferResponse.record (a : Arrival) (r : InferResponse) : RunRecord where
  runId := r.runId
  configHash := r.configHash
  prompt := a.request.prompt
  output := r.output
  phase := a.request.phase
  backend := a.request.backend
  router := a.request.router
  selectedExperts := r.selectedExperts
  totalTokens := r.totalTokens
  totalCostUsd := r.totalCostUsd
  totalLatencyMs := r.totalLatencyMs
  epu := r.epu
  kvTransfers := r.kvTransfers
  timestamp := a.timestamp

/-- A logistic router, as a pipeline sees it. -/
def LogisticRouter.toRouter {σ R : Type} [PyFloat R] [Unicode] (router : LogisticRouter R) :
    Router σ where
  name := some "logistic"
  route := router.route

namespace Deployment

variable {σ μ : Type} [Hashlib] [Unicode]

/-- `_build_backend`. -/
def buildBackend (d : Deployment σ μ) (backend roleHint : String) (paramsM : ℕ) :
    Except Exn (Backend σ) :=
  if backend = "mock" then .ok ((MockBackend.ofRole paramsM roleHint).backend)
  else if backend = "hf" then
    let synthesizer := (d.environ "CHEN_HF_SYNTHESIZER_MODEL").getD
      "HuggingFaceTB/SmolLM2-1.7B-Instruct"
    let modelId :=
      if roleHint = "analyst" then
        (d.environ "CHEN_HF_ANALYST_MODEL").getD "HuggingFaceTB/SmolLM2-1.7B-Instruct"
      else if roleHint = "reasoner" then
        (d.environ "CHEN_HF_REASONER_MODEL").getD "Qwen/Qwen2.5-3B-Instruct"
      else if roleHint = "coder" then
        (d.environ "CHEN_HF_CODER_MODEL").getD "Qwen/Qwen2.5-3B-Instruct"
      else synthesizer
    d.huggingFace modelId paramsM
  else if backend = "vllm" then
    d.vllm ((d.environ "CHEN_VLLM_MODEL").getD "meta-llama/Meta-Llama-3-8B-Instruct") paramsM
  else if backend = "llama_cpp" then d.llamaCpp paramsM
  else .error (.value
    ("Unknown backend '" ++ backend ++ "'. Supported: mock, hf, vllm, llama_cpp."))

/-- `_build_experts`: the four experts of the server. -/
def buildExperts (d : Deployment σ μ) (backend : String) : Except Exn (List (Expert σ)) := do
  let analyst ← d.buildBackend backend "analyst" 3000
  let reasoner ← d.buildBackend backend "reasoner" 8000
  let coder ← d.buildBackend backend "coder" 7000
  let synthesizer ← d.buildBackend backend "synthesizer" 3000
  pure
    [{ name := "analyst", role := .analyst, backend := analyst },
      { name := "reasoner", role := .reasoner, backend := reasoner },
      { name := "coder", role := .coder, backend := coder },
      { name := "synthesizer", role := .synthesizer, backend := synthesizer }]

variable (R : Type) [PyFloat R]

/-- `_make_pipeline`. Phase 3 uses the logistic router, whichever router the request names. -/
def makePipeline (d : Deployment σ μ) (phase : ℕ) (_routerKind : String)
    (experts : List (Expert σ)) (maxTokens : ℤ) : Except Exn (AnyPipeline σ) :=
  if phase = 1 then
    .cascade <$> CascadePipeline.create experts d.cost ["analyst", "synthesizer"] maxTokens false 0
  else if phase = 2 then
    .kvPass <$>
      KVPassPipeline.create experts d.cost ["analyst", "synthesizer"] maxTokens false 0 true
  else if phase = 3 then
    let router : LogisticRouter R := .fromExperts experts
    .routing <$>
      RoutingPipeline.create experts d.cost (some router.toRouter) .text maxTokens false 0 true
  else .error (.value ("Unknown phase: " ++ toString phase))

/-- The pipeline that serves a request. -/
def pipeline (d : Deployment σ μ) (req : InferRequest) : Except Exn (AnyPipeline σ) := do
  let experts ← d.buildExperts req.backend
  d.makePipeline R req.phase req.router experts req.maxTokens

/-- `pipe.run(req.prompt)`, in the server's world. -/
def runPipeline [Memory μ] (d : Deployment σ μ) (pipe : AnyPipeline σ) (a : Arrival) :
    EStateM Exn (ServerState σ) PipelineResult := fun s =>
  match pipe.run a.request.prompt {}
      ({ world := s.world, memory := d.memory, clock := a.clock } : RunState σ μ) with
  | .ok result t => .ok result { s with world := t.world }
  | .error x t => .error x { s with world := t.world }

/-- `infer`. -/
def infer [Memory μ] (d : Deployment σ μ) (a : Arrival) :
    EStateM Exn (ServerState σ) InferResponse := do
  let req := a.request
  let pipe ← liftExcept (d.pipeline R req)
  let result ← d.runPipeline pipe a
  let config : InferConfig :=
    { phase := req.phase
      backend := req.backend
      router := req.router
      maxTokens := req.maxTokens
      sequence := result.selectedExperts }
  let response : InferResponse :=
    { output := result.output
      selectedExperts := result.selectedExperts
      perExpert := result.perExpert.map (·.toModel)
      totalTokens := result.metrics.totalTokens
      totalCostUsd := result.metrics.totalCostUsd
      totalLatencyMs := result.metrics.totalLatencyMs
      epu := result.metrics.epu
      kvTransfers := result.metrics.kvCacheTransfers
      runId := config.runId
      configHash := config.hash }
  if req.saveRun then
    modify fun s => { s with store := s.store.save (response.record a) }
  pure response

/-- Requests, one after the other. -/
def serve [Memory μ] (d : Deployment σ μ) (arrivals : List Arrival) :
    EStateM Exn (ServerState σ) (List InferResponse) :=
  arrivals.mapM (d.infer R)

end Deployment

end Chen
