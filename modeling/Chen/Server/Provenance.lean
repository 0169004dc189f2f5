import Chen.Cli.Run
import Chen.Server.Streaming

/-!
# The provenance of served runs

What the record of a served run tells of its request. The server runs phase 3 with the logistic
router whatever router is named, and the records have no trace and no tenant.
-/

namespace Chen

open Effect

/-- The body of a request, with the identifiers that it brings along. -/
structure InferBody extends InferRequest where
  traceId : Option String := none
  tenantId : Option String := none
  traceId_length : ∀ id ∈ traceId, id.length ≤ 128 := by simp
  tenantId_length : ∀ id ∈ tenantId, id.length ≤ 128 := by simp

section Provenance

variable {σ μ : Type} [Hashlib] [Unicode] (R : Type) [PyFloat R] [Numpy R]

namespace Deployment

/-- The experts that a router selects for a prompt: from the server's experts, in a pipeline as
`chen run` builds it. -/
def namedSequence (d : Deployment σ μ) (setOrder : SetOrder) (routerKind : String)
    (req : InferRequest) : Except Exn (List String) := do
  let experts ← d.buildExperts req.backend
  let pipe ← Cli.buildPipeline R setOrder d.cost 3 routerKind experts req.maxTokens
  pipe.names req.prompt

/-- The experts that were run are those that the named router selects, and the saved record names
them, the router, the trace and the tenant. -/
structure Provenance (d : Deployment σ μ) (setOrder : SetOrder) (body : InferBody) (reply : Reply)
    (s : ServerState σ) : Prop where
  sequence : d.namedSequence R setOrder body.router body.toInferRequest = .ok reply.expertNames
  saved : ∃ runId ∈ reply.runId, ∃ record, s.store.get runId = .ok (some record) ∧
    record.selectedExperts = reply.expertNames ∧ record.router = body.router ∧
    record.traceId = body.traceId.getD "" ∧ record.tenantId = body.tenantId.getD ""

/-- The sequence that the config names is that of the pipeline. -/
theorem namedSequence_eq {d : Deployment σ μ} {setOrder : SetOrder} {routerKind : String}
    {req : InferRequest} {experts : List (Expert σ)} {pipe : AnyPipeline σ}
    (hexperts : d.buildExperts req.backend = .ok experts)
    (hpipe : Cli.buildPipeline R setOrder d.cost 3 routerKind experts req.maxTokens = .ok pipe) :
    d.namedSequence R setOrder routerKind req = pipe.names req.prompt := by
  rw [namedSequence, hexperts]
  show (Cli.buildPipeline R setOrder d.cost 3 routerKind experts req.maxTokens >>= _) = _
  rw [hpipe]
  rfl

/-- `chen run` saves what the named router selects: on mock backends it has the server's experts. -/
theorem runCommand_sequence [Memory μ] {d : Deployment σ μ} {setOrder : SetOrder}
    {req : InferRequest} (hbackend : req.backend = "mock") {clock : ℕ → ℚ} {timestamp : String}
    {s s' : ServerState σ}
    (h : Cli.runCommand R d setOrder ⟨req.prompt, 3, req.backend, req.maxTokens, req.router, true⟩
      clock timestamp s = .ok () s') :
    ∃ record, s'.store.get record.runId = .ok (some record) ∧
      d.namedSequence R setOrder req.router req = .ok record.selectedExperts ∧
      record.router = req.router := by
  obtain ⟨experts, pipe, result, hexperts, hpipe, hnames, hstore⟩ := Cli.runCommand_saves R rfl h
  have hpool : d.buildExperts req.backend = .ok experts := by
    rw [← hexperts, hbackend]
    rfl
  refine ⟨_, by rw [hstore]; exact RunStore.get_save _ _, ?_, rfl⟩
  rw [namedSequence_eq R hpool hpipe]
  exact hnames

/-- The server's pipeline of phase 3 is the one that `chen run` builds for the logistic router. -/
theorem makePipeline_eq (d : Deployment σ μ) (setOrder : SetOrder) (routerKind : String)
    (experts : List (Expert σ)) (maxTokens : ℤ) :
    d.makePipeline R 3 routerKind experts maxTokens =
      Cli.buildPipeline R setOrder d.cost 3 "logistic" experts maxTokens := rfl

variable {R}

/-- A request to phase 3 is run on what the logistic router selects. -/
theorem namedSequence_logistic {d : Deployment σ μ} (setOrder : SetOrder) {req : InferRequest}
    (hphase : req.phase = 3) {pipe : AnyPipeline σ} (hpipe : d.pipeline R req = .ok pipe) :
    d.namedSequence R setOrder "logistic" req = pipe.names req.prompt := by
  obtain ⟨experts, hexperts, hmake⟩ := except_bind_eq_ok.mp hpipe
  rw [hphase, d.makePipeline_eq R setOrder] at hmake
  exact namedSequence_eq R hexperts hmake

/-- A served run of phase 3 is saved with the experts that the logistic router selects, the router's
name, and neither a trace nor a tenant. -/
theorem reply_saves [Memory μ] {d : Deployment σ μ} (setOrder : SetOrder) {endpoint : Endpoint}
    {a : Arrival} (hphase : a.request.phase = 3) (hsave : a.request.saveRun = true)
    {s s' : ServerState σ} {reply : Reply} (h : d.reply R endpoint a s = .ok reply s') :
    d.namedSequence R setOrder "logistic" a.request = .ok reply.expertNames ∧
      ∃ runId, reply.runId = some runId ∧ ∃ record, s'.store.get runId = .ok (some record) ∧
        record.selectedExperts = reply.expertNames ∧ record.router = a.request.router ∧
        record.traceId = "" ∧ record.tenantId = "" := by
  obtain ⟨response, hinfer, rfl⟩ := (reply_eq_ok R).mp h
  obtain ⟨hstore, -⟩ := infer_spec R hsave hinfer
  obtain ⟨pipe, result, s₁, hpipe, hrun, hresponse, -⟩ := (d.infer_eq_ok R a).mp hinfer
  obtain ⟨hnames, hrows, -⟩ := d.runPipeline_shows a hrun
  have hexperts : response.perExpert.map (·.expertName) = result.selectedExperts := by
    rw [hresponse, ← hrows]
    exact List.map_map
  rw [Reply.expertNames_ofResponse, Reply.runId_ofResponse, hexperts,
    namedSequence_logistic setOrder hphase hpipe]
  refine ⟨hnames, response.runId, rfl, response.record a, ?_, ?_, rfl, rfl, rfl⟩
  · rw [hstore]
    exact RunStore.get_save _ _
  · rw [hresponse]
    rfl

variable (R)

/-- The record of a served run of phase 3 tells where it comes from if and only if the named router
selects the same experts for the prompt as the logistic one, and the request has no trace and no
tenant to speak of. -/
theorem provenance_iff [Memory μ] (d : Deployment σ μ) (setOrder : SetOrder) (endpoint : Endpoint)
    (body : InferBody) (clock : ℕ → ℚ) (timestamp : String) (s s' : ServerState σ) (reply : Reply)
    (hphase : body.phase = 3) (hsave : body.saveRun = true)
    (h : d.reply R endpoint ⟨body.toInferRequest, clock, timestamp⟩ s = .ok reply s') :
    d.Provenance R setOrder body reply s' ↔
      d.namedSequence R setOrder body.router body.toInferRequest =
          d.namedSequence R setOrder "logistic" body.toInferRequest ∧
        (body.traceId = none ∨ body.traceId = some "") ∧
        (body.tenantId = none ∨ body.tenantId = some "") := by
  obtain ⟨hsequence, runId, hrunId, record, hget, hexperts, hrouter, htrace, htenant⟩ :=
    reply_saves setOrder hphase hsave h
  have hempty : ∀ id : Option String, "" = id.getD "" ↔ id = none ∨ id = some "" := by
    intro id
    cases id <;> simp [eq_comm]
  rw [hsequence, ← hempty, ← hempty]
  constructor
  · rintro ⟨hnamed, runId', hrunId', record', hget', -, -, htrace', htenant'⟩
    rw [hrunId] at hrunId'
    cases hrunId'
    cases hget.symm.trans hget'
    exact ⟨hnamed, htrace.symm.trans htrace', htenant.symm.trans htenant'⟩
  · rintro ⟨hnamed, htrace', htenant'⟩
    exact ⟨hnamed, runId, hrunId, record, hget, hexperts, hrouter, htrace.trans htrace',
      htenant.trans htenant'⟩

end Deployment

end Provenance

section Examples

local instance provenanceHashlib : Hashlib := Hashlib.checksum
local instance provenanceUnicode : Unicode := Unicode.ascii
local instance provenanceFloat : PyFloat ℚ := PyFloat.rat
local instance provenanceNumpy : Numpy ℚ := Numpy.rat

/-- A request to phase 3 that names a router. -/
def routedBody (prompt router : String) (traceId : Option String)
    (hprompt : 1 ≤ prompt.length ∧ prompt.length ≤ 100000)
    (htrace : ∀ id ∈ traceId, id.length ≤ 128) : InferBody where
  prompt := prompt
  phase := 3
  router := router
  traceId := traceId
  prompt_length := hprompt
  maxTokens_range := InferRequest.default_maxTokens_range
  traceId_length := htrace

theorem length_p : 1 ≤ "p".length ∧ "p".length ≤ 100000 := by decide

/-- The hybrid router selects what the logistic router does. -/
def hybridBody : InferBody := routedBody "p" "hybrid" none length_p (by simp)

/-- The cosine router selects other experts than the logistic one. -/
def cosineBody : InferBody := routedBody "why?" "cosine" (some "t-1") (by decide) (by decide)

/-- A request that both endpoints can get. -/
def InferBody.arrival (body : InferBody) : Arrival :=
  ⟨body.toInferRequest, fun _ => 0, "2026-01-01T00:00:00+00:00"⟩

/-- A streamed request with the default router. -/
theorem Deployment.provenance_hybrid : ∃ reply s',
    mockDeployment.reply ℚ .inferStream hybridBody.arrival ⟨(), {}⟩ = .ok reply s' ∧
      mockDeployment.Provenance ℚ .insertion hybridBody reply s' := by
  obtain ⟨reply, s', hserved, hsame⟩ : ∃ reply s',
      mockDeployment.reply ℚ .inferStream hybridBody.arrival ⟨(), {}⟩ = .ok reply s' ∧
        mockDeployment.namedSequence ℚ .insertion "hybrid" hybridBody.toInferRequest =
          mockDeployment.namedSequence ℚ .insertion "logistic" hybridBody.toInferRequest :=
    Returned.exists (by decide +kernel)
  exact ⟨reply, s', hserved, (provenance_iff ℚ mockDeployment .insertion .inferStream hybridBody
    _ _ _ _ _ rfl rfl hserved).mpr ⟨hsame, .inl rfl, .inl rfl⟩⟩

/-- The run of a request that names the cosine router and a trace is not the cosine router's, and
its record has no trace. -/
theorem Deployment.provenance_lost : ∃ reply s',
    mockDeployment.reply ℚ .infer cosineBody.arrival ⟨(), {}⟩ = .ok reply s' ∧
      mockDeployment.namedSequence ℚ .insertion "cosine" cosineBody.toInferRequest ≠
        .ok reply.expertNames ∧
      reply.runId.map (fun id => (s'.store.get id).map (Option.map (·.traceId))) =
        some (.ok (some "")) ∧
      ¬mockDeployment.Provenance ℚ .insertion cosineBody reply s' := by
  obtain ⟨reply, s', hserved, hdiffer⟩ : ∃ reply s',
      mockDeployment.reply ℚ .infer cosineBody.arrival ⟨(), {}⟩ = .ok reply s' ∧
        mockDeployment.namedSequence ℚ .insertion "cosine" cosineBody.toInferRequest ≠
          mockDeployment.namedSequence ℚ .insertion "logistic" cosineBody.toInferRequest :=
    Returned.exists (by decide +kernel)
  obtain ⟨hsequence, runId, hrunId, record, hget, -, -, htrace, -⟩ :=
    reply_saves SetOrder.insertion rfl rfl hserved
  have hnamed : mockDeployment.namedSequence ℚ .insertion "cosine" cosineBody.toInferRequest ≠
      .ok reply.expertNames := by
    rw [← hsequence]
    exact hdiffer
  refine ⟨reply, s', hserved, hnamed, ?_, fun h => hnamed h.sequence⟩
  rw [hrunId, Option.map_some, hget]
  show some (Except.ok (some record.traceId)) = _
  rw [htrace]

end Examples

end Chen
