import Chen.Library.Simulation
import Chen.Observability.Metrics
import Chen.Phases.Equivalence
import Chen.Phases.Tokens
import Chen.Server.Streaming

/-!
# The metrics of served runs

`POST /v1/infer` counts the runs that it serves, their experts and their tokens, and
`POST /v1/infer/stream` counts nothing.
-/

namespace Chen

open Effect Prometheus

variable {σ μ Γ : Type} [Prometheus Γ]

/-- The metrics of one expert. -/
def emitExpert (m : ExpertMetrics) : EStateM Exn Γ Unit := do
  recordExpertInvocation m.expertName m.role.value
  recordTokens "input" m.inputTokens
  recordTokens "output" m.outputTokens
  if m.usedKVCache then recordKVTransfer "prev" m.expertName m.cacheTransferSucceeded

/-- The metrics that `infer` emits. -/
def emitMetrics (phase : ℕ) (result : PipelineResult) : EStateM Exn Γ Unit := do
  recordPipelineRun phase
  result.perExpert.forM emitExpert

section Process

variable [Hashlib] [Unicode] (R : Type) [PyFloat R] [Memory μ]

/-- `infer`, in a process that has a registry of metrics. -/
def Deployment.inferCounted (d : Deployment σ μ) (a : Arrival) :
    EStateM Exn (ServerState σ × Γ) InferResponse := do
  let req := a.request
  let pipe ← liftExcept (d.pipeline R req)
  let result ← onFirst (d.runPipeline pipe a)
  onSecond (emitMetrics req.phase result)
  let response := InferResponse.ofResult req result
  if req.saveRun then
    onFirst (modify fun s => { s with store := s.store.save (response.record a) })
  pure response

/-- A request, served in such a process. -/
def Deployment.replyCounted (d : Deployment σ μ) (endpoint : Endpoint) (a : Arrival) :
    EStateM Exn (ServerState σ × Γ) Reply :=
  match endpoint with
  | .infer => .body <$> d.inferCounted R a
  | .inferStream => .events <$> onFirst (d.inferStream R a)

/-- Requests, one after the other. -/
def Deployment.serveCounted (d : Deployment σ μ) (requests : List (Endpoint × Arrival)) :
    EStateM Exn (ServerState σ × Γ) (List Reply) :=
  requests.mapM fun request => d.replyCounted R request.1 request.2

end Process

/-! ## What is counted -/

/-- What one expert's metrics add to the counters. -/
def ExpertMetrics.amount (m : ExpertMetrics) : MetricCounter → ℤ
  | .expertInvocations => 1
  | .kvTransfers => if m.usedKVCache then 1 else 0
  | .tokensProcessed => m.totalTokens
  | .pipelineRuns => 0

/-- What one expert adds to the totals. -/
theorem total_emitExpert (hlaws : Lawful Γ) (havailable : available Γ = true) {m : ExpertMetrics}
    {registry registry' : Γ} (h : emitExpert m registry = .ok () registry')
    (counter : MetricCounter) :
    total registry' counter = total registry counter + m.amount counter := by
  obtain ⟨_, r₁, hexpert, h⟩ := bind_eq_ok.mp h
  obtain ⟨_, r₂, hinput, h⟩ := bind_eq_ok.mp h
  obtain ⟨_, r₃, houtput, htransfer⟩ := bind_eq_ok.mp h
  have hrecorded : total r₃ counter = total registry counter +
      (if counter = .expertInvocations then 1 else 0) +
      (if counter = .tokensProcessed then m.totalTokens else 0) := by
    rw [total_recordMetric hlaws havailable houtput, total_recordMetric hlaws havailable hinput,
      total_recordMetric hlaws havailable hexpert, ExpertMetrics.totalTokens]
    split_ifs <;> omega
  have hlast : total registry' counter = total r₃ counter +
      if counter = .kvTransfers ∧ m.usedKVCache = true then 1 else 0 := by
    split at htransfer
    case isTrue hused =>
      rw [total_recordMetric hlaws havailable htransfer]
      simp [hused]
    case isFalse hused =>
      cases htransfer
      simp [hused]
  rw [hlast, hrecorded]
  cases counter <;> simp [ExpertMetrics.amount]

/-- What the experts of a run add. -/
theorem total_forM_emitExpert (hlaws : Lawful Γ) (havailable : available Γ = true)
    {ms : List ExpertMetrics} {registry registry' : Γ}
    (h : ms.forM emitExpert registry = .ok () registry') (counter : MetricCounter) :
    total registry' counter = total registry counter + (ms.map (·.amount counter)).sum := by
  induction ms generalizing registry with
  | nil =>
    cases h
    simp
  | cons m ms ih =>
    have hloop : (emitExpert m >>= fun _ => ms.forM emitExpert) registry = .ok () registry' := h
    obtain ⟨_, r₁, hfirst, hrest⟩ := bind_eq_ok.mp hloop
    rw [ih hrest, total_emitExpert hlaws havailable hfirst, List.map_cons, List.sum_cons,
      Int.add_assoc]

/-- What a run adds to the counters. -/
def PipelineResult.amount (result : PipelineResult) (counter : MetricCounter) : ℤ :=
  (if counter = .pipelineRuns then 1 else 0) + (result.perExpert.map (·.amount counter)).sum

/-- What a run adds. -/
theorem total_emitMetrics (hlaws : Lawful Γ) (havailable : available Γ = true) {phase : ℕ}
    {result : PipelineResult} {registry registry' : Γ}
    (h : emitMetrics phase result registry = .ok () registry') (counter : MetricCounter) :
    total registry' counter = total registry counter + result.amount counter := by
  obtain ⟨_, r₁, hrun, hexperts⟩ := bind_eq_ok.mp h
  rw [total_forM_emitExpert hlaws havailable hexperts,
    total_recordMetric hlaws havailable hrun, PipelineResult.amount, Int.add_assoc]

/-- What a reply shows of its run. -/
def Reply.amount (reply : Reply) : MetricCounter → ℤ
  | .expertInvocations => reply.expertNames.length
  | .kvTransfers => reply.kvTransfers.getD 0
  | .tokensProcessed => reply.totalTokens.getD 0
  | .pipelineRuns => 1

/-- A sum of ones is a count. -/
theorem sum_ite_eq_countP {α : Type} (p : α → Prop) [DecidablePred p] (xs : List α) :
    (xs.map fun x => if p x then (1 : ℤ) else 0).sum = xs.countP p := by
  induction xs with
  | nil => rfl
  | cons x xs ih =>
    rw [List.map_cons, List.sum_cons, ih, List.countP_cons]
    by_cases hx : p x
    · simp only [hx, if_true, decide_true]
      omega
    · simp [hx]

section Process

variable [Hashlib] [Unicode] {R : Type} [PyFloat R] [Memory μ] {d : Deployment σ μ}

omit [Prometheus Γ] [Unicode] [PyFloat R] in
/-- A reply shows what its run adds to the counters. -/
theorem amount_ofResult {pipe : AnyPipeline σ} {a : Arrival} {s s' : ServerState σ}
    {result : PipelineResult} (h : d.runPipeline pipe a s = .ok result s') (endpoint : Endpoint) :
    (Reply.ofResponse (.ofResult a.request result) endpoint).amount = result.amount := by
  obtain ⟨-, -, htokens, htransfers⟩ := d.runPipeline_shows a h
  funext counter
  cases counter with
  | expertInvocations =>
    rw [Reply.amount, Reply.expertNames_ofResponse]
    simp [InferResponse.ofResult, PipelineResult.amount, ExpertMetrics.amount]
  | kvTransfers =>
    rw [Reply.amount, Reply.kvTransfers_ofResponse]
    simp [InferResponse.ofResult, PipelineResult.amount, ExpertMetrics.amount, htransfers,
      sum_ite_eq_countP]
  | tokensProcessed =>
    rw [Reply.amount, Reply.totalTokens_ofResponse]
    simp [InferResponse.ofResult, PipelineResult.amount, ExpertMetrics.amount, htokens]
  | pipelineRuns =>
    simp [Reply.amount, PipelineResult.amount, ExpertMetrics.amount]

/-- What a request does to the state does not depend on the metrics. -/
theorem inferCounted_spec {a : Arrival} {s s' : ServerState σ × Γ}
    {response : InferResponse} (h : d.inferCounted R a s = .ok response s') :
    ∃ pipe result s₁, d.pipeline R a.request = .ok pipe ∧
      d.runPipeline pipe a s.1 = .ok result s₁ ∧
      emitMetrics a.request.phase result s.2 = .ok () s'.2 ∧
      response = .ofResult a.request result ∧ s'.1 = Deployment.conclude a response s₁ := by
  simp only [Deployment.inferCounted, bind_eq_ok, liftExcept_eq_ok, onFirst_eq_ok,
    onSecond_eq_ok, onFirst_modify, ite_modify_apply] at h
  obtain ⟨pipe, _, ⟨hpipe, rfl⟩, result, s₁, ⟨hrun, hregistry⟩, _, s₂, ⟨hemit, hstate⟩, h⟩ := h
  cases h
  refine ⟨pipe, result, s₁.1, hpipe, hrun, ?_, rfl, ?_⟩
  · rw [apply_ite Prod.snd, ite_self, ← hregistry]
    exact hemit
  · rw [apply_ite Prod.fst, Deployment.conclude, ← hstate]

/-- A served request adds what its reply shows, or nothing if it is streamed. -/
theorem replyCounted_spec (hlaws : Lawful Γ) (havailable : available Γ = true)
    {endpoint : Endpoint} {a : Arrival} {s s' : ServerState σ × Γ} {reply : Reply}
    (h : d.replyCounted R endpoint a s = .ok reply s') :
    d.reply R endpoint a s.1 = .ok reply s'.1 ∧ ∀ counter, total s'.2 counter =
      total s.2 counter + if endpoint = .infer then reply.amount counter else 0 := by
  cases endpoint with
  | infer =>
    rw [Deployment.replyCounted, map_eq_ok] at h
    obtain ⟨response, hinfer, rfl⟩ := h
    obtain ⟨pipe, result, t, hpipe, hrun, hemit, rfl, hstate⟩ := inferCounted_spec hinfer
    refine ⟨?_, fun counter => ?_⟩
    · exact (Deployment.reply_eq_ok R).mpr
        ⟨_, (d.infer_eq_ok R a).mpr ⟨pipe, result, t, hpipe, hrun, rfl, hstate⟩, rfl⟩
    · rw [total_emitMetrics hlaws havailable hemit, if_pos rfl,
        ← amount_ofResult hrun .infer]
      rfl
  | inferStream =>
    rw [Deployment.replyCounted, map_eq_ok] at h
    obtain ⟨events, hstream, rfl⟩ := h
    obtain ⟨hstream, hregistry⟩ := onFirst_eq_ok.mp hstream
    refine ⟨?_, fun counter => ?_⟩
    · obtain ⟨response, hinfer, rfl⟩ := (d.inferStream_eq_ok R a).mp hstream
      exact (Deployment.reply_eq_ok R).mpr ⟨response, hinfer, rfl⟩
    · rw [hregistry, if_neg nofun, Int.add_zero]

/-- A series of requests adds what the replies show of those that are not streamed. -/
theorem serveCounted_spec (hlaws : Lawful Γ) (havailable : available Γ = true)
    {requests : List (Endpoint × Arrival)} {replies : List Reply} {s s' : ServerState σ × Γ}
    (h : d.serveCounted R requests s = .ok replies s') :
    requests.length = replies.length ∧ ∀ counter, total s'.2 counter = total s.2 counter +
      ((requests.zip replies).map fun p =>
        if p.1.1 = .infer then p.2.amount counter else 0).sum := by
  induction requests generalizing s replies with
  | nil =>
    cases h
    exact ⟨rfl, fun counter => by simp⟩
  | cons request requests ih =>
    rw [Deployment.serveCounted, List.mapM_cons] at h
    obtain ⟨reply, s₁, hreply, hrest⟩ := bind_eq_ok.mp h
    obtain ⟨rest, s₂, hserve, hpure⟩ := bind_eq_ok.mp hrest
    cases hpure
    obtain ⟨hlen, htotal⟩ := ih hserve
    obtain ⟨-, hfirst⟩ := replyCounted_spec hlaws havailable hreply
    refine ⟨by rw [List.length_cons, List.length_cons, hlen], fun counter => ?_⟩
    rw [htotal, hfirst, List.zip_cons_cons, List.map_cons, List.sum_cons, Int.add_assoc]

end Process

/-- The counters agree with the replies: they count the runs, the metrics of experts and the tokens
that these show. -/
structure Counted (registry : Γ) (replies : List Reply) : Prop where
  runs : total registry .pipelineRuns = replies.length
  invocations : total registry .expertInvocations =
    (replies.map fun reply => (reply.expertNames.length : ℤ)).sum
  tokens : total registry .tokensProcessed =
    (replies.map fun reply => reply.totalTokens.getD 0).sum

/-- In a process that has served a series of requests the counters agree with the replies if and
only if none of them was streamed. -/
theorem Deployment.counted_iff [Hashlib] [Unicode] (R : Type) [PyFloat R] [Memory μ]
    (hlaws : Lawful Γ) (havailable : available Γ = true) (d : Deployment σ μ)
    (requests : List (Endpoint × Arrival)) (s : ServerState σ) (s' : ServerState σ × Γ)
    (replies : List Reply) (h : d.serveCounted R requests (s, empty) = .ok replies s') :
    Counted s'.2 replies ↔ ∀ request ∈ requests, request.1 = .infer := by
  obtain ⟨hlen, htotal⟩ := serveCounted_spec hlaws havailable h
  simp only [hlaws.total_empty, Int.zero_add] at htotal
  constructor
  · intro hcounted
    have hruns := hcounted.runs
    rw [htotal] at hruns
    have hcount : (requests.zip replies).countP (·.1.1 = Endpoint.infer) =
        (requests.zip replies).length := by
      have hsum := sum_ite_eq_countP (fun p : (Endpoint × Arrival) × Reply => p.1.1 = .infer)
        (requests.zip replies)
      simp only [Reply.amount] at hruns
      rw [List.length_zip]
      omega
    rw [List.countP_eq_length] at hcount
    rw [← List.map_fst_zip hlen.le]
    intro request hrequest
    obtain ⟨p, hp, rfl⟩ := List.mem_map.mp hrequest
    simpa using hcount p hp
  · intro hinfer
    have hall : ∀ counter, total s'.2 counter =
        (replies.map fun reply => reply.amount counter).sum := by
      intro counter
      rw [htotal]
      conv_rhs => rw [← List.map_snd_zip hlen.ge, List.map_map]
      refine congrArg List.sum (List.map_congr_left fun p hp => ?_)
      exact if_pos (hinfer p.1 (List.of_mem_zip hp).1)
    refine ⟨?_, hall _, hall _⟩
    rw [hall]
    simp [Reply.amount]

/-! ## Counting changes nothing -/

/-- Counting up always returns. -/
theorem recordMetric_total (hlaws : Lawful Γ) (counter : MetricCounter) (labels : List String)
    {amount : ℤ} (hamount : 0 ≤ amount) :
    Total (recordMetric counter labels amount : EStateM Exn Γ Unit) := by
  rw [recordMetric]
  split
  case isTrue =>
    intro registry
    obtain ⟨registry', h⟩ := hlaws.inc_returns registry counter labels hamount
    exact ⟨(), registry', h⟩
  case isFalse => exact Total.pure ()

/-- So does counting an expert with tokens that are not negative. -/
theorem emitExpert_total (hlaws : Lawful Γ) {m : ExpertMetrics} (hm : m.Countable) :
    Total (emitExpert m : EStateM Exn Γ Unit) := by
  refine (recordMetric_total hlaws _ _ (by decide)).bind fun _ => ?_
  refine (recordMetric_total hlaws _ _ hm.1).bind fun _ => ?_
  refine (recordMetric_total hlaws _ _ hm.2).bind fun _ => ?_
  split
  case isTrue => exact recordMetric_total hlaws _ _ (by decide)
  case isFalse => exact Total.pure ()

/-- So does counting a run. -/
theorem emitMetrics_total (hlaws : Lawful Γ) {result : PipelineResult}
    (h : ∀ m ∈ result.perExpert, m.Countable) (phase : ℕ) :
    Total (emitMetrics phase result : EStateM Exn Γ Unit) := by
  have hloop : ∀ ms : List ExpertMetrics, (∀ m ∈ ms, m.Countable) →
      Total (ms.forM emitExpert : EStateM Exn Γ Unit) := by
    intro ms hms
    induction ms with
    | nil => exact Total.pure ()
    | cons m ms ih =>
      obtain ⟨hm, hms⟩ := List.forall_mem_cons.mp hms
      exact (emitExpert_total hlaws hm).bind fun _ => ih hms
  exact (recordMetric_total hlaws _ _ (by decide)).bind fun _ => hloop result.perExpert h

/-- No installed backend counts a negative number of tokens. -/
structure Deployment.CountsUp (d : Deployment σ μ) : Prop where
  huggingFace : ∀ modelId paramsM b, d.huggingFace modelId paramsM = .ok b → b.CountsUp
  vllm : ∀ modelId paramsM b, d.vllm modelId paramsM = .ok b → b.CountsUp
  llamaCpp : ∀ paramsM b, d.llamaCpp paramsM = .ok b → b.CountsUp

namespace Deployment

variable [Hashlib] [Unicode] {R : Type} [PyFloat R] {d : Deployment σ μ}

/-- The backends of a deployment count no negative tokens. -/
theorem buildBackend_countsUp (hd : d.CountsUp) {backend roleHint : String} {paramsM : ℕ}
    {b : Backend σ} (h : d.buildBackend backend roleHint paramsM = .ok b) : b.CountsUp := by
  rw [buildBackend] at h
  split_ifs at h
  · cases h
    exact MockBackend.countsUp _
  · exact hd.huggingFace _ _ b h
  · exact hd.huggingFace _ _ b h
  · exact hd.huggingFace _ _ b h
  · exact hd.huggingFace _ _ b h
  · exact hd.vllm _ _ b h
  · exact hd.llamaCpp _ b h

/-- Nor do those of its experts. -/
theorem buildExperts_countsUp (hd : d.CountsUp) {backend : String} {experts : List (Expert σ)}
    (h : d.buildExperts backend = .ok experts) : ∀ e ∈ experts, e.backend.CountsUp := by
  simp only [buildExperts, except_bind_eq_ok] at h
  obtain ⟨analyst, hanalyst, reasoner, hreasoner, coder, hcoder, synthesizer, hsynthesizer, h⟩ := h
  cases h
  simp only [List.forall_mem_cons]
  exact ⟨buildBackend_countsUp hd hanalyst, buildBackend_countsUp hd hreasoner,
    buildBackend_countsUp hd hcoder, buildBackend_countsUp hd hsynthesizer, List.forall_mem_nil _⟩

omit [Hashlib] in
/-- A pipeline has the experts it was made of. -/
theorem makePipeline_experts {phase : ℕ} {routerKind : String} {experts : List (Expert σ)}
    {maxTokens : ℤ} {pipe : AnyPipeline σ}
    (h : d.makePipeline R phase routerKind experts maxTokens = .ok pipe) :
    pipe.base.experts = experts := by
  rw [makePipeline] at h
  split_ifs at h
  · simp only [map_eq_pure_bind, except_bind_eq_ok, CascadePipeline.create] at h
    obtain ⟨p, ⟨base, hbase, seq, -, hp⟩, h⟩ := h
    cases hp
    cases h
    exact (Pipeline.create_ok hbase).1
  · simp only [map_eq_pure_bind, except_bind_eq_ok, KVPassPipeline.create] at h
    obtain ⟨p, ⟨base, hbase, seq, -, hp⟩, h⟩ := h
    cases hp
    cases h
    exact (Pipeline.create_ok hbase).1
  · simp only [map_eq_pure_bind, except_bind_eq_ok, RoutingPipeline.create] at h
    obtain ⟨p, ⟨base, hbase, hp⟩, h⟩ := h
    cases hp
    cases h
    exact (Pipeline.create_ok hbase).1

/-- The experts of a request's pipeline count no negative tokens. -/
theorem pipeline_countsUp (hd : d.CountsUp) {req : InferRequest} {pipe : AnyPipeline σ}
    (h : d.pipeline R req = .ok pipe) : ∀ e ∈ pipe.base.experts, e.backend.CountsUp := by
  obtain ⟨experts, hexperts, hpipe⟩ := except_bind_eq_ok.mp h
  rw [makePipeline_experts hpipe]
  exact buildExperts_countsUp hd hexperts

variable [Memory μ]

omit [Hashlib] [Unicode] in
/-- All metrics of a run can be counted. -/
theorem runPipeline_countable {pipe : AnyPipeline σ}
    (he : ∀ e ∈ pipe.base.experts, e.backend.CountsUp) (a : Arrival) :
    Ensures (d.runPipeline pipe a) (∀ m ∈ ·.perExpert, m.Countable) := by
  intro s result s' h
  obtain ⟨t, hrun, -⟩ := runPipeline_eq_ok.mp h
  exact AnyPipeline.run_countable he _ _ _ _ _ hrun

/-- `infer` in a process with metrics does what it does without. -/
theorem inferCounted_simulates (hlaws : Lawful Γ) (hd : d.CountsUp) (a : Arrival) :
    Simulates (fun (s : ServerState σ × Γ) t => s.1 = t) (· = ·) (d.inferCounted R a)
      (d.infer R a) := by
  have hpipeline : Agree (fun p q => p = q ∧ d.pipeline R a.request = .ok p)
      (d.pipeline R a.request) (d.pipeline R a.request) := by
    cases h : d.pipeline R a.request with
    | ok pipe => exact .ok ⟨rfl, rfl⟩
    | error x => exact .error x
  refine (Simulates.liftExcept hpipeline).bind ?_
  rintro pipe _ ⟨rfl, hpipe⟩
  refine (Simulates.onFirst_self
    (runPipeline_countable (pipeline_countsUp hd hpipe) a)).bind ?_
  rintro result _ ⟨rfl, hcountable⟩
  refine Simulates.onSecond_bind (emitMetrics_total hlaws hcountable _) fun _ => ?_
  rintro ⟨s, registry⟩ _ rfl
  cases a.request.saveRun <;> exact ⟨rfl, .ok rfl⟩

/-- A request gets the same reply with counters and without. -/
theorem replyCounted_simulates (hlaws : Lawful Γ) (hd : d.CountsUp) (endpoint : Endpoint)
    (a : Arrival) :
    Simulates (fun (s : ServerState σ × Γ) t => s.1 = t) (· = ·) (d.replyCounted R endpoint a)
      (d.reply R endpoint a) := by
  cases endpoint with
  | infer =>
    rw [replyCounted, reply, map_eq_pure_bind, map_eq_pure_bind]
    refine (inferCounted_simulates hlaws hd a).bind ?_
    rintro response _ rfl
    exact Simulates.pure rfl
  | inferStream =>
    rw [replyCounted, reply, map_eq_pure_bind, map_eq_pure_bind]
    refine (Simulates.onFirst_self (Ensures.trivial _)).bind ?_
    rintro events _ ⟨rfl, -⟩
    exact Simulates.pure rfl

/-- So does a series of requests. -/
theorem serveCounted_agrees (hlaws : Lawful Γ) (hd : d.CountsUp)
    (requests : List (Endpoint × Arrival)) :
    Simulates (fun (s : ServerState σ × Γ) t => s.1 = t) (List.Forall₂ (· = ·))
      (d.serveCounted R requests) (requests.mapM fun request => d.reply R request.1 request.2) :=
  Simulates.mapM fun request _ => replyCounted_simulates hlaws hd request.1 request.2

/-- Metrics only watch. If no backend counts a negative number of tokens, a series of requests to
either endpoint gets the same replies or ends in the same exception as on a server without metrics,
and leaves the same state. -/
theorem serveCounted_eq (hlaws : Lawful Γ) (hd : d.CountsUp)
    (requests : List (Endpoint × Arrival)) (s : ServerState σ) (registry : Γ) :
    (final (d.serveCounted R requests (s, registry))).1 =
        final (requests.mapM (fun request => d.reply R request.1 request.2) s) ∧
      outcome (d.serveCounted R requests (s, registry)) =
        outcome (requests.mapM (fun request => d.reply R request.1 request.2) s) := by
  obtain ⟨hstate, hagree⟩ := serveCounted_agrees (R := R) hlaws hd requests (s, registry) s rfl
  refine ⟨hstate, (hagree.mono fun replies replies' h => ?_).eq⟩
  rwa [List.forall₂_eq_eq_eq] at h

end Deployment

section Examples

local instance countedHashlib : Hashlib := Hashlib.checksum
local instance countedUnicode : Unicode := Unicode.ascii
local instance countedFloat : PyFloat ℚ := PyFloat.rat
local instance countedSamples : Prometheus Samples := Samples.prometheus

/-- Mock backends count no negative tokens. -/
theorem mockDeployment.countsUp : mockDeployment.CountsUp := by
  constructor <;> intros <;> contradiction

/-- What the mock deployment serves without metrics, it serves with them. -/
theorem Deployment.serveCounted_mock (requests : List (Endpoint × Arrival))
    (h : ∃ replies s', requests.mapM (fun request => mockDeployment.reply ℚ request.1 request.2)
      ⟨(), {}⟩ = .ok replies s' ∧ True) : ∃ replies s',
    mockDeployment.serveCounted ℚ requests (⟨(), {}⟩, (empty : Samples)) = .ok replies s' := by
  obtain ⟨replies, s', hserve, -⟩ := h
  obtain ⟨-, hagree⟩ := serveCounted_agrees (R := ℚ) Samples.lawful mockDeployment.countsUp
    requests (⟨(), {}⟩, empty) ⟨(), {}⟩ rfl
  rw [hserve, outcome_ok] at hagree
  cases houtcome : outcome (mockDeployment.serveCounted ℚ requests
      (⟨(), {}⟩, (empty : Samples))) with
  | ok replies' => exact ⟨replies', _, eq_ok_of_outcome houtcome⟩
  | error x =>
    rw [houtcome] at hagree
    cases hagree

/-- Two requests to the first endpoint are counted. -/
theorem Deployment.counted_two : ∃ replies s',
    mockDeployment.serveCounted ℚ [(.infer, arrivalP), (.infer, arrivalLong)] (⟨(), {}⟩, empty) =
        .ok replies s' ∧ replies.length = 2 ∧ Counted (s'.2 : Samples) replies := by
  obtain ⟨replies, s', hserve⟩ := serveCounted_mock
    [(.infer, arrivalP), (.infer, arrivalLong)] (Returned.exists (by decide +kernel))
  refine ⟨replies, s', hserve, (serveCounted_spec Samples.lawful rfl hserve).1.symm, ?_⟩
  exact (counted_iff ℚ Samples.lawful rfl mockDeployment _ _ s' replies hserve).mpr (by simp)

/-- Of two runs on the two endpoints one is counted. -/
theorem Deployment.streamed_not_counted : ∃ replies s',
    mockDeployment.serveCounted ℚ [(.infer, arrivalP), (.inferStream, arrivalP)]
        (⟨(), {}⟩, empty) = .ok replies s' ∧
      (replies.length = 2 ∧ total (s'.2 : Samples) .pipelineRuns = 1) ∧
      ¬Counted (s'.2 : Samples) replies := by
  obtain ⟨replies, s', hserve⟩ := serveCounted_mock
    [(.infer, arrivalP), (.inferStream, arrivalP)] (Returned.exists (by decide +kernel))
  obtain ⟨hlen, htotal⟩ := serveCounted_spec Samples.lawful rfl hserve
  have htwo : replies.length = 2 := hlen.symm
  have hruns : total s'.2 .pipelineRuns = 1 := by
    obtain ⟨r₁, r₂, rfl⟩ := List.length_eq_two.mp htwo
    exact htotal .pipelineRuns
  refine ⟨replies, s', hserve, ⟨htwo, hruns⟩, fun h => ?_⟩
  rw [h.runs, htwo] at hruns
  exact absurd hruns (by decide)

/-- The mock deployment counts none. -/
theorem Deployment.serveCounted_eq_both :
    outcome (mockDeployment.serveCounted ℚ [(.infer, arrivalP), (.inferStream, arrivalP)]
        (⟨(), {}⟩, (empty : Samples))) =
      outcome ([(Endpoint.infer, arrivalP), (.inferStream, arrivalP)].mapM
        (fun request => mockDeployment.reply ℚ request.1 request.2) ⟨(), {}⟩) :=
  (serveCounted_eq (R := ℚ) Samples.lawful mockDeployment.countsUp
    [(.infer, arrivalP), (.inferStream, arrivalP)] ⟨(), {}⟩ empty).2

end Examples

end Chen
