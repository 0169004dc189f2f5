import Chen.Phases.Metering
import Chen.Server.RunHistory

/-!
# The streaming endpoint

`POST /v1/infer/stream` does what `POST /v1/infer` does and sends the response in events. The two
endpoints are written out separately in the source, and here; what one of them sends is shown to be
what the other one returns. Of the last event, the time that has elapsed is left out.
-/

namespace Chen

open Effect

/-- What `infer_stream` sends: an event for each expert, and the final one. -/
inductive StreamEvent where
  | expert (index : ℕ) (expertName role : String) (latencyMs : ℚ) (tokens : ℤ)
  | done (output : String) (selectedExperts : List String) (totalTokens : ℤ)
      (totalCostUsd totalLatencyMs epu : ℚ) (kvTransfers : ℕ) (runId configHash : String)
deriving DecidableEq

/-- The event of the expert at a position. -/
def StreamEvent.ofMetrics (m : ExpertMetrics) (index : ℕ) : StreamEvent :=
  .expert index m.expertName m.role.value m.latencyMs (m.inputTokens + m.outputTokens)

/-- `expert_name`, of an expert's event. -/
def StreamEvent.expertName? : StreamEvent → Option String
  | .expert _ expertName _ _ _ => some expertName
  | .done .. => none

/-- `total_tokens`, of the final event. -/
def StreamEvent.totalTokens? : StreamEvent → Option ℤ
  | .expert .. => none
  | .done _ _ totalTokens _ _ _ _ _ _ => some totalTokens

/-- `kv_transfers`, of the final event. -/
def StreamEvent.kvTransfers? : StreamEvent → Option ℕ
  | .expert .. => none
  | .done _ _ _ _ _ _ kvTransfers _ _ => some kvTransfers

/-- `run_id`, of the final event. -/
def StreamEvent.runId? : StreamEvent → Option String
  | .expert .. => none
  | .done _ _ _ _ _ _ _ runId _ => some runId

section Endpoints

variable {σ μ : Type} [Hashlib] [Unicode] (R : Type) [PyFloat R]

/-- `infer_stream`, until the last event is sent. -/
def Deployment.inferStream [Memory μ] (d : Deployment σ μ) (a : Arrival) :
    EStateM Exn (ServerState σ) (List StreamEvent) := do
  let req := a.request
  let pipe ← liftExcept (d.pipeline R req)
  let result ← d.runPipeline pipe a
  let events := result.perExpert.zipIdx.map fun p => StreamEvent.ofMetrics p.1 p.2
  let config : InferConfig :=
    { phase := req.phase
      backend := req.backend
      router := req.router
      maxTokens := req.maxTokens
      sequence := result.selectedExperts }
  let cfgHash := config.hash
  let runId := config.runId
  if req.saveRun then
    let record : RunRecord :=
      { runId
        configHash := cfgHash
        prompt := req.prompt
        output := result.output
        phase := req.phase
        backend := req.backend
        router := req.router
        selectedExperts := result.selectedExperts
        totalTokens := result.metrics.totalTokens
        totalCostUsd := result.metrics.totalCostUsd
        totalLatencyMs := result.metrics.totalLatencyMs
        epu := result.metrics.epu
        kvTransfers := result.metrics.kvCacheTransfers
        timestamp := a.timestamp }
    modify fun s => { s with store := s.store.save record }
  pure (events ++ [.done result.output result.selectedExperts result.metrics.totalTokens
    result.metrics.totalCostUsd result.metrics.totalLatencyMs result.metrics.epu
    result.metrics.kvCacheTransfers runId cfgHash])

/-- The event that shows one expert's metrics. -/
def ExpertMetricsModel.event (m : ExpertMetricsModel) (index : ℕ) : StreamEvent :=
  .expert index m.expertName m.role m.latencyMs (m.inputTokens + m.outputTokens)

/-- A response, sent in events. -/
def InferResponse.events (r : InferResponse) : List StreamEvent :=
  (r.perExpert.zipIdx.map fun p => p.1.event p.2) ++
    [.done r.output r.selectedExperts r.totalTokens r.totalCostUsd r.totalLatencyMs r.epu
      r.kvTransfers r.runId r.configHash]

/-- The response that `infer` makes of a result. -/
def InferResponse.ofResult (req : InferRequest) (result : PipelineResult) : InferResponse :=
  let config : InferConfig :=
    { phase := req.phase
      backend := req.backend
      router := req.router
      maxTokens := req.maxTokens
      sequence := result.selectedExperts }
  { output := result.output
    selectedExperts := result.selectedExperts
    perExpert := result.perExpert.map (·.toModel)
    totalTokens := result.metrics.totalTokens
    totalCostUsd := result.metrics.totalCostUsd
    totalLatencyMs := result.metrics.totalLatencyMs
    epu := result.metrics.epu
    kvTransfers := result.metrics.kvCacheTransfers
    runId := config.runId
    configHash := config.hash }

omit [Unicode] in
/-- One event for each expert, and one at the end. -/
theorem InferResponse.events_ofResult (req : InferRequest) (result : PipelineResult) :
    (InferResponse.ofResult req result).events =
      (result.perExpert.zipIdx.map fun p => StreamEvent.ofMetrics p.1 p.2) ++
        [.done result.output result.selectedExperts result.metrics.totalTokens
          result.metrics.totalCostUsd result.metrics.totalLatencyMs result.metrics.epu
          result.metrics.kvCacheTransfers (InferResponse.ofResult req result).runId
          (InferResponse.ofResult req result).configHash] := by
  have hmap : (InferResponse.ofResult req result).perExpert.zipIdx.map (fun p => p.1.event p.2) =
      result.perExpert.zipIdx.map fun p => StreamEvent.ofMetrics p.1 p.2 := by
    rw [InferResponse.ofResult, List.zipIdx_map, List.map_map]
    rfl
  rw [InferResponse.events, hmap]
  rfl

namespace Deployment

variable [Memory μ] (d : Deployment σ μ) (a : Arrival)

/-- What an endpoint does once its pipeline has run: it saves the run, unless it is not to. -/
def conclude (response : InferResponse) (s : ServerState σ) : ServerState σ :=
  if a.request.saveRun then { s with store := s.store.save (response.record a) } else s

/-- A request runs its pipeline, saves the run and shows the result. -/
theorem infer_eq_ok {s s' : ServerState σ} {response : InferResponse} :
    d.infer R a s = .ok response s' ↔ ∃ pipe result s₁,
      d.pipeline R a.request = .ok pipe ∧ d.runPipeline pipe a s = .ok result s₁ ∧
        response = .ofResult a.request result ∧ s' = conclude a response s₁ := by
  simp only [infer, bind_eq_ok, liftExcept_eq_ok, ite_modify_apply]
  constructor
  · rintro ⟨pipe, _, ⟨hpipe, rfl⟩, result, s₁, hrun, h⟩
    cases h
    exact ⟨pipe, result, s₁, hpipe, hrun, rfl, rfl⟩
  · rintro ⟨pipe, result, s₁, hpipe, hrun, rfl, rfl⟩
    exact ⟨pipe, s, ⟨hpipe, rfl⟩, result, s₁, hrun, rfl⟩

/-- The streaming endpoint sends what the other one returns, and leaves the same state. -/
theorem inferStream_eq_ok {s s' : ServerState σ} {events : List StreamEvent} :
    d.inferStream R a s = .ok events s' ↔
      ∃ response, d.infer R a s = .ok response s' ∧ events = response.events := by
  simp only [infer_eq_ok, inferStream, bind_eq_ok, liftExcept_eq_ok, ite_modify_apply]
  constructor
  · rintro ⟨pipe, _, ⟨hpipe, rfl⟩, result, s₁, hrun, h⟩
    cases h
    exact ⟨.ofResult a.request result, ⟨pipe, result, s₁, hpipe, hrun, rfl, rfl⟩,
      (InferResponse.events_ofResult a.request result).symm⟩
  · rintro ⟨_, ⟨pipe, result, s₁, hpipe, hrun, rfl, rfl⟩, rfl⟩
    refine ⟨pipe, s, ⟨hpipe, rfl⟩, result, s₁, hrun, ?_⟩
    rw [InferResponse.events_ofResult]
    rfl

omit [Hashlib] [Unicode] in
/-- What a pipeline shows of its run: the metrics are those of the experts it went through, in their
order, and the tokens and the transfers are theirs. -/
theorem runPipeline_shows {pipe : AnyPipeline σ} {s s' : ServerState σ} {result : PipelineResult}
    (h : d.runPipeline pipe a s = .ok result s') :
    pipe.names a.request.prompt = .ok result.selectedExperts ∧
      result.perExpert.map (·.expertName) = result.selectedExperts ∧
      result.metrics.totalTokens = (result.perExpert.map (·.totalTokens)).sum ∧
      result.metrics.kvCacheTransfers = result.perExpert.countP (·.usedKVCache) := by
  obtain ⟨t, hresult, -⟩ := runPipeline_eq_ok.mp h
  obtain ⟨hnames, ⟨hreach, hmetrics, hperExpert, -, -⟩⟩ := AnyPipeline.run_returns rfl hresult
  have hmetered := hreach.metered
  refine ⟨hnames, ?_, ?_, ?_⟩
  · rw [hperExpert, hmetered.perExpert, hmetered.expertNames]
  · rw [hmetrics, hperExpert, ← hreach.totalTokens_eq]
    rfl
  · rw [hmetrics, hperExpert, ← hreach.kvCacheTransfers_eq]
    rfl

end Deployment

end Endpoints

/-! ## Either endpoint -/

/-- The endpoint that a request is sent to. -/
inductive Endpoint where
  | infer
  | inferStream
deriving DecidableEq

/-- What an endpoint answers. -/
inductive Reply where
  | body (response : InferResponse)
  | events (events : List StreamEvent)
deriving DecidableEq

namespace Reply

/-- The names of the experts whose metrics are shown, in their order. -/
def expertNames : Reply → List String
  | body response => response.perExpert.map (·.expertName)
  | events sent => sent.filterMap StreamEvent.expertName?

/-- `total_tokens`. -/
def totalTokens : Reply → Option ℤ
  | body response => some response.totalTokens
  | events sent => sent.getLast?.bind StreamEvent.totalTokens?

/-- `kv_transfers`. -/
def kvTransfers : Reply → Option ℕ
  | body response => some response.kvTransfers
  | events sent => sent.getLast?.bind StreamEvent.kvTransfers?

/-- `run_id`. -/
def runId : Reply → Option String
  | body response => some response.runId
  | events sent => sent.getLast?.bind StreamEvent.runId?

/-- The reply in which an endpoint shows a response. -/
def ofResponse (response : InferResponse) : Endpoint → Reply
  | .infer => body response
  | .inferStream => events response.events

/-- A reply names the experts of the response. -/
theorem expertNames_ofResponse (response : InferResponse) (endpoint : Endpoint) :
    (ofResponse response endpoint).expertNames = response.perExpert.map (·.expertName) := by
  cases endpoint with
  | infer => rfl
  | inferStream =>
    have hnames : ∀ (ms : List ExpertMetricsModel) (k : ℕ),
        ((ms.zipIdx k).map fun p => p.1.event p.2).filterMap StreamEvent.expertName? =
          ms.map (·.expertName) := by
      intro ms
      induction ms with
      | nil => exact fun _ => rfl
      | cons m ms ih =>
        intro k
        rw [List.zipIdx_cons, List.map_cons, List.filterMap_cons, List.map_cons, ih]
        rfl
    rw [ofResponse, expertNames, InferResponse.events, List.filterMap_append, hnames]
    exact List.append_nil _

/-- The last event says what the whole run did. -/
theorem getLast?_events (response : InferResponse) :
    response.events.getLast? = some (.done response.output response.selectedExperts
      response.totalTokens response.totalCostUsd response.totalLatencyMs response.epu
      response.kvTransfers response.runId response.configHash) := by
  rw [InferResponse.events, List.getLast?_concat]

/-- A reply has the tokens of the response. -/
theorem totalTokens_ofResponse (response : InferResponse) (endpoint : Endpoint) :
    (ofResponse response endpoint).totalTokens = some response.totalTokens := by
  cases endpoint with
  | infer => rfl
  | inferStream => rw [ofResponse, totalTokens, getLast?_events]; rfl

/-- It has its transfers. -/
theorem kvTransfers_ofResponse (response : InferResponse) (endpoint : Endpoint) :
    (ofResponse response endpoint).kvTransfers = some response.kvTransfers := by
  cases endpoint with
  | infer => rfl
  | inferStream => rw [ofResponse, kvTransfers, getLast?_events]; rfl

/-- It has its id. -/
theorem runId_ofResponse (response : InferResponse) (endpoint : Endpoint) :
    (ofResponse response endpoint).runId = some response.runId := by
  cases endpoint with
  | infer => rfl
  | inferStream => rw [ofResponse, runId, getLast?_events]; rfl

end Reply

section Serve

variable {σ μ : Type} [Hashlib] [Unicode] (R : Type) [PyFloat R] [Memory μ]

/-- A request that is sent to an endpoint. -/
def Deployment.reply (d : Deployment σ μ) (endpoint : Endpoint) (a : Arrival) :
    EStateM Exn (ServerState σ) Reply :=
  match endpoint with
  | .infer => .body <$> d.infer R a
  | .inferStream => .events <$> d.inferStream R a

/-- A request is replied to if the run returned. -/
theorem Deployment.reply_eq_ok {d : Deployment σ μ} {endpoint : Endpoint} {a : Arrival}
    {s s' : ServerState σ} {reply : Reply} :
    d.reply R endpoint a s = .ok reply s' ↔
      ∃ response, d.infer R a s = .ok response s' ∧ reply = .ofResponse response endpoint := by
  cases endpoint with
  | infer =>
    rw [Deployment.reply, map_eq_ok]
    rfl
  | inferStream =>
    rw [Deployment.reply, map_eq_ok]
    constructor
    · rintro ⟨events, hstream, rfl⟩
      obtain ⟨response, hinfer, rfl⟩ := (d.inferStream_eq_ok R a).mp hstream
      exact ⟨response, hinfer, rfl⟩
    · rintro ⟨response, hinfer, rfl⟩
      exact ⟨_, (d.inferStream_eq_ok R a).mpr ⟨response, hinfer, rfl⟩, rfl⟩

end Serve

end Chen
