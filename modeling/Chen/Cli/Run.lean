import Chen.Router.Proper
import Chen.Server.Routes

/-!
# `chen run`

The command builds its own experts and pipeline for a prompt, runs it and saves the run. It has the
three routers to choose from. What it prints is left out.
-/

namespace Chen

open Effect

/-- The arguments of the command. -/
structure RunArgs where
  prompt : String
  phase : ℤ := 1
  backend : String := "mock"
  maxTokens : ℤ := 128
  router : String := "logistic"
  saveRun : Bool := false

namespace RouterObject

variable {σ R : Type} [PyFloat R] [Hashlib] [Numpy R] [Unicode]

/-- `name`. -/
def name : RouterObject R → String
  | single (.logistic _) => "logistic"
  | single (.cosine _ _) => "cosine"
  | hybrid _ _ _ => "hybrid"

/-- A router object, as a pipeline sees it. -/
def toRouter (router : RouterObject R) : Router σ where
  name := some router.name
  route := router.route

end RouterObject

namespace Cli

variable {σ μ : Type} [Hashlib] [Unicode]

/-- `_build_experts`. -/
def buildExperts (d : Deployment σ μ) (backend : String) : Except Exn (List (Expert σ)) :=
  if backend = "mock" then
    .ok
      [{ name := "analyst", role := .analyst
         backend := (MockBackend.ofRole 3000 "analyst").backend },
        { name := "reasoner", role := .reasoner
          backend := (MockBackend.ofRole 8000 "reasoner").backend },
        { name := "coder", role := .coder
          backend := (MockBackend.ofRole 7000 "coder").backend },
        { name := "synthesizer", role := .synthesizer
          backend := (MockBackend.ofRole 3000 "synthesizer").backend }]
  else if backend = "hf" then do
    let analyst ← d.huggingFace "HuggingFaceTB/SmolLM2-1.7B-Instruct" 1700
    let reasoner ← d.huggingFace "Qwen/Qwen2.5-3B-Instruct" 3000
    let coder ← d.huggingFace "Qwen/Qwen2.5-3B-Instruct" 3000
    let synthesizer ← d.huggingFace "HuggingFaceTB/SmolLM2-1.7B-Instruct" 1700
    pure
      [{ name := "analyst", role := .analyst, backend := analyst },
        { name := "reasoner", role := .reasoner, backend := reasoner },
        { name := "coder", role := .coder, backend := coder },
        { name := "synthesizer", role := .synthesizer, backend := synthesizer }]
  else .error (.value ("Unknown backend: " ++ backend))

variable {R : Type} [PyFloat R] [Numpy R]

/-- `_make_router`. -/
def makeRouter (setOrder : SetOrder) (kind : String) (experts : List (Expert σ)) :
    Except Exn (RouterObject R) :=
  if kind = "logistic" then .ok (.single (.logistic (.fromExperts experts)))
  else if kind = "cosine" then
    match (CosineRouter.fromExperts experts : EStateM _ (Prototypes R) _) [] with
    | .ok router prototypes => .ok (.single (.cosine router prototypes))
    | .error x _ => .error x
  else if kind = "hybrid" then
    match (HybridRouter.fromExperts experts : EStateM _ (Prototypes R) _) [] with
    | .ok router prototypes => .ok (.hybrid router prototypes setOrder)
    | .error x _ => .error x
  else .error (.value ("Unknown router: " ++ kind))

variable (R)

/-- `_build_pipeline`. -/
def buildPipeline (setOrder : SetOrder) (cost : CostModel) (phase : ℤ) (routerKind : String)
    (experts : List (Expert σ)) (maxTokens : ℤ) : Except Exn (AnyPipeline σ) :=
  if phase = 1 then
    .cascade <$> CascadePipeline.create experts cost ["analyst", "reasoner", "synthesizer"]
      maxTokens false 0
  else if phase = 2 then
    .kvPass <$> KVPassPipeline.create experts cost ["analyst", "reasoner", "synthesizer"]
      maxTokens false 0 true
  else if phase = 3 then do
    let router : RouterObject R ← makeRouter setOrder routerKind experts
    .routing <$>
      RoutingPipeline.create experts cost (some router.toRouter) .text maxTokens false 0 true
  else .error (.value ("Unknown phase: " ++ toString phase))

omit [Hashlib] [Unicode] [PyFloat R] [Numpy R] in
/-- `pipe.run(prompt)`. -/
def runPipeline [Memory μ] (d : Deployment σ μ) (pipe : AnyPipeline σ) (prompt : String)
    (clock : ℕ → ℚ) : EStateM Exn (ServerState σ) PipelineResult := fun s =>
  match pipe.run prompt {} ({ world := s.world, memory := d.memory, clock } : RunState σ μ) with
  | .ok result t => .ok result { s with world := t.world }
  | .error x t => .error x { s with world := t.world }

/-- The dictionary that identifies a run. -/
def configItems (args : RunArgs) (sequence : List String) : List (String × Json) :=
  [("phase", .int args.phase), ("backend", .str args.backend), ("router", .str args.router),
    ("max_tokens", .int args.maxTokens), ("sequence", .list (sequence.map .str))]

/-- The record that is saved. -/
def record (args : RunArgs) (timestamp : String) (result : PipelineResult) : RunRecord :=
  let configHash := hashConfig (configItems args result.selectedExperts)
  { runId := Str.prefixTo configHash 16
    prompt := args.prompt
    output := result.output
    phase := args.phase
    backend := args.backend
    router := args.router
    selectedExperts := result.selectedExperts
    totalTokens := result.metrics.totalTokens
    totalCostUsd := result.metrics.totalCostUsd
    totalLatencyMs := result.metrics.totalLatencyMs
    epu := result.metrics.epu
    kvTransfers := result.metrics.kvCacheTransfers
    configHash
    timestamp }

/-- `run_command`, with the run store that it opens. -/
def runCommand [Memory μ] (d : Deployment σ μ) (setOrder : SetOrder) (args : RunArgs)
    (clock : ℕ → ℚ) (timestamp : String) : EStateM Exn (ServerState σ) Unit := do
  let experts ← liftExcept (buildExperts d args.backend)
  let pipe ← liftExcept
    (buildPipeline R setOrder d.cost args.phase args.router experts args.maxTokens)
  let result ← runPipeline d pipe args.prompt clock
  if args.saveRun then
    modify fun s => { s with store := s.store.save (record args timestamp result) }

/-- A run that is saved is saved with the experts that its pipeline selects for the prompt. -/
theorem runCommand_saves [Memory μ] {d : Deployment σ μ} {setOrder : SetOrder} {args : RunArgs}
    {clock : ℕ → ℚ} {timestamp : String} {s s' : ServerState σ} (hsave : args.saveRun = true)
    (h : runCommand R d setOrder args clock timestamp s = .ok () s') :
    ∃ experts pipe result, buildExperts d args.backend = .ok experts ∧
      buildPipeline R setOrder d.cost args.phase args.router experts args.maxTokens = .ok pipe ∧
      pipe.names args.prompt = .ok result.selectedExperts ∧
      s'.store = s.store.save (record args timestamp result) := by
  simp only [runCommand, bind_eq_ok, liftExcept_eq_ok, if_pos hsave] at h
  obtain ⟨experts, _, ⟨hexperts, rfl⟩, pipe, _, ⟨hpipe, rfl⟩, result, s₁, hrun, hmodify⟩ := h
  cases hmodify
  rw [runPipeline] at hrun
  split at hrun
  case h_1 result' t hresult =>
    cases hrun
    exact ⟨experts, pipe, result, hexperts, hpipe, (AnyPipeline.run_returns rfl hresult).1, rfl⟩
  case h_2 => cases hrun

end Cli

end Chen
