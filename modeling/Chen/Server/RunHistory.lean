import Chen.Server.Routes

/-!
# The history of served runs

A run's id is derived from its config, and the config does not contain the prompt. The record that
is found under an id is the last one that was saved under it.
-/

namespace Chen

open Effect

section History

variable {σ μ : Type} [Hashlib] [Unicode] (R : Type) [PyFloat R]

namespace Deployment

/-- The config that a request resolves to. Its sequence is that of the pipeline, or what the router
selects for the prompt. -/
def config (d : Deployment σ μ) (req : InferRequest) : Except Exn InferConfig := do
  let pipe ← d.pipeline R req
  let sequence ← pipe.names req.prompt
  pure
    { phase := req.phase
      backend := req.backend
      router := req.router
      maxTokens := req.maxTokens
      sequence }

/-- Two requests resolve to one config. -/
def SameConfig (d : Deployment σ μ) (req req' : InferRequest) : Prop :=
  ∃ c, d.config R req = .ok c ∧ d.config R req' = .ok c

/-- The configs of the requests have different ids. -/
def CollisionFree (d : Deployment σ μ) (arrivals : List Arrival) : Prop :=
  ∀ a ∈ arrivals, ∀ a' ∈ arrivals, ∀ c c', d.config R a.request = .ok c →
    d.config R a'.request = .ok c' → c.runId = c'.runId → c = c'

variable [Memory μ] {d : Deployment σ μ} {a : Arrival} {response : InferResponse}
  {s s' : ServerState σ}

omit [Hashlib] [Unicode] in
/-- A pipeline runs in the server's world, and leaves the store. -/
theorem runPipeline_eq_ok {pipe : AnyPipeline σ} {result : PipelineResult} :
    d.runPipeline pipe a s = .ok result s' ↔
      ∃ t : RunState σ μ, pipe.run a.request.prompt {}
          { world := s.world, memory := d.memory, clock := a.clock } = .ok result t ∧
        s' = { s with world := t.world } := by
  rw [runPipeline]
  cases pipe.run a.request.prompt {}
      ({ world := s.world, memory := d.memory, clock := a.clock } : RunState σ μ) with
  | ok result' t => simp [eq_comm]
  | error x t => simp

/-- What serving a request leaves behind: the record of the response, under the id of the
request's config. -/
theorem infer_spec (hsave : a.request.saveRun = true)
    (h : d.infer R a s = .ok response s') :
    s'.store = s.store.save (response.record a) ∧
      ∃ c, d.config R a.request = .ok c ∧ response.runId = c.runId := by
  obtain ⟨pipe, _, hlift, hrest⟩ := bind_eq_ok.mp h
  obtain ⟨hpipe, rfl⟩ := liftExcept_eq_ok.mp hlift
  obtain ⟨result, s₁, hrun, hrest⟩ := bind_eq_ok.mp hrest
  rw [if_pos hsave] at hrest
  cases hrest
  obtain ⟨t, hresult, rfl⟩ := runPipeline_eq_ok.mp hrun
  obtain ⟨hnames, -⟩ := AnyPipeline.run_returns rfl hresult
  refine ⟨rfl, _, ?_, rfl⟩
  rw [config, hpipe]
  show (pipe.names a.request.prompt >>= _) = _
  rw [hnames]
  rfl

/-- What serving a series of requests leaves behind: the records of all responses, saved in
order. -/
theorem serve_spec {arrivals : List Arrival} {responses : List InferResponse}
    (hsave : ∀ a ∈ arrivals, a.request.saveRun = true)
    (h : d.serve R arrivals s = .ok responses s') :
    arrivals.length = responses.length ∧
      s'.store = ((arrivals.zip responses).map fun p => p.2.record p.1).foldl RunStore.save
        s.store ∧
      ∀ p ∈ arrivals.zip responses, ∃ c, d.config R p.1.request = .ok c ∧ p.2.runId = c.runId := by
  induction arrivals generalizing s responses with
  | nil =>
    cases h
    exact ⟨rfl, rfl, by simp⟩
  | cons a arrivals ih =>
    rw [serve, List.mapM_cons] at h
    obtain ⟨response, s₁, hinfer, hrest⟩ := bind_eq_ok.mp h
    obtain ⟨rest, s₂, hserve, hpure⟩ := bind_eq_ok.mp hrest
    rw [pure_apply] at hpure
    cases hpure
    obtain ⟨hstore, hconfig⟩ := infer_spec R (hsave a (List.mem_cons_self ..)) hinfer
    obtain ⟨hlen, hstores, hconfigs⟩ :=
      ih (fun a ha => hsave a (List.mem_cons_of_mem _ ha)) hserve
    refine ⟨by rw [List.length_cons, List.length_cons, hlen], ?_, ?_⟩
    · rw [hstores, hstore]
      rfl
    · rw [List.zip_cons_cons]
      exact List.forall_mem_cons.mpr ⟨hconfig, hconfigs⟩

end Deployment

/-! ## Which runs are kept -/

/-- Every run id still leads to a record with the prompt of its request. -/
def KeepsPrompts (store : RunStore) (served : List (Arrival × InferResponse)) : Prop :=
  ∀ p ∈ served, ∃ record, store.get p.2.runId = .ok (some record) ∧
    record.prompt = p.1.request.prompt

/-- Every run id still leads to a record with the prompt and the output of its request. -/
def KeepsRuns (store : RunStore) (served : List (Arrival × InferResponse)) : Prop :=
  ∀ p ∈ served, ∃ record, store.get p.2.runId = .ok (some record) ∧
    record.prompt = p.1.request.prompt ∧ record.output = p.2.output

omit [Hashlib] [Unicode] in
/-- After a series of saves, what `π` shows of each run is still found under its id if and only if
no two runs with one id differ in it. -/
theorem served_faithful_iff {β : Type} (π : RunRecord → β) (store : RunStore)
    (served : List (Arrival × InferResponse)) :
    (∀ p ∈ served, ∃ record, ((served.map fun p => p.2.record p.1).foldl RunStore.save store).get
        p.2.runId = .ok (some record) ∧ π record = π (p.2.record p.1)) ↔
      ∀ p ∈ served, ∀ p' ∈ served, p.2.runId = p'.2.runId →
        π (p.2.record p.1) = π (p'.2.record p'.1) := by
  have h := RunStore.saved_faithful_iff π store (served.map fun p => p.2.record p.1)
  simp only [List.forall_mem_map] at h
  exact h

/-- When ids do not collide, the prompt of every run is kept if and only if requests with one
config have one prompt, and its output too if and only if they also got one output. -/
theorem Deployment.runs_kept_iff [Memory μ] (d : Deployment σ μ) (arrivals : List Arrival)
    (s s' : ServerState σ) (responses : List InferResponse)
    (hsave : ∀ a ∈ arrivals, a.request.saveRun = true)
    (hserve : d.serve R arrivals s = .ok responses s')
    (hcollision : d.CollisionFree R arrivals) :
    (KeepsPrompts s'.store (arrivals.zip responses) ↔
      ∀ a ∈ arrivals, ∀ a' ∈ arrivals, d.SameConfig R a.request a'.request →
        a.request.prompt = a'.request.prompt) ∧
    (KeepsRuns s'.store (arrivals.zip responses) ↔
      ∀ p ∈ arrivals.zip responses, ∀ p' ∈ arrivals.zip responses,
        d.SameConfig R p.1.request p'.1.request →
          p.1.request.prompt = p'.1.request.prompt ∧ p.2.output = p'.2.output) := by
  obtain ⟨hlen, hstore, hconfig⟩ := serve_spec R hsave hserve
  have hsame : ∀ p ∈ arrivals.zip responses, ∀ p' ∈ arrivals.zip responses,
      (p.2.runId = p'.2.runId ↔ d.SameConfig R p.1.request p'.1.request) := by
    intro p hp p' hp'
    obtain ⟨c, hc, hid⟩ := hconfig p hp
    obtain ⟨c', hc', hid'⟩ := hconfig p' hp'
    constructor
    · intro heq
      have hcc : c = c' := hcollision _ (List.of_mem_zip hp).1 _ (List.of_mem_zip hp').1 c c' hc hc'
        (by rw [← hid, ← hid', heq])
      exact ⟨c, hc, hcc ▸ hc'⟩
    · rintro ⟨c₀, hc₀, hc₀'⟩
      rw [hc] at hc₀
      rw [hc'] at hc₀'
      cases hc₀
      cases hc₀'
      rw [hid, hid']
  have hmap : (arrivals.zip responses).map (·.1) = arrivals := List.map_fst_zip hlen.le
  have harrivals (P : Arrival → Prop) :
      (∀ a ∈ arrivals, P a) ↔ ∀ p ∈ arrivals.zip responses, P p.1 := by
    have h := List.forall_mem_map (f := (·.1)) (l := arrivals.zip responses) (P := P)
    rwa [hmap] at h
  rw [hstore]
  constructor
  · have h := served_faithful_iff RunRecord.prompt s.store (arrivals.zip responses)
    refine Iff.trans h ?_
    rw [harrivals]
    refine forall₂_congr fun p hp => ?_
    rw [harrivals]
    refine forall₂_congr fun p' hp' => ?_
    rw [hsame p hp p' hp']
    rfl
  · have h := served_faithful_iff (fun r => (r.prompt, r.output)) s.store (arrivals.zip responses)
    simp only [Prod.mk.injEq] at h
    refine Iff.trans h (forall₂_congr fun p hp => forall₂_congr fun p' hp' => ?_)
    rw [hsame p hp p' hp']
    rfl

end History

/-- The characters of a config's id: sixteen of the digest's digits. -/
theorem InferConfig.toList_runId [Hashlib] (c : InferConfig) :
    c.runId.toList = (((Hashlib.sha256 ((Json.dict c.items).write.flatMap
      String.utf8EncodeChar)).flatMap fun b => Str.hexPad 2 b.toNat)).take 16 := by
  simp only [runId, hash, hashConfig, Str.prefixTo, Str.hex, Str.utf8, Json.dumps,
    String.toList_ofList, sliceTo]
  rfl

/-! ## Two requests on mock backends -/

/-- A server on which only mock backends are installed. -/
def mockDeployment : Deployment Unit NoMemory where
  environ _ := none
  huggingFace _ _ := .error (.other "BackendNotAvailableError" "transformers")
  vllm _ _ := .error (.other "BackendNotAvailableError" "vllm")
  llamaCpp _ := .error (.other "BackendNotAvailableError" "llama_cpp")
  memory := .mk

/-- A request for the prompt `p` to phase 1. -/
def arrivalP : Arrival := ⟨{ prompt := "p" }, fun _ => 0, "2026-01-01T00:00:00+00:00"⟩

/-- The same request for the prompt `q`. -/
def arrivalQ : Arrival := ⟨{ prompt := "q" }, fun _ => 0, "2026-01-01T00:00:01+00:00"⟩

/-- A request for `q` that allows more tokens. -/
def arrivalLong : Arrival :=
  ⟨{ prompt := "q", maxTokens := 256 }, fun _ => 0, "2026-01-01T00:00:01+00:00"⟩

/-- The config that a request to phase 1 resolves to. -/
def cascadeConfig (maxTokens : ℤ) : InferConfig where
  phase := 1
  backend := "mock"
  router := "logistic"
  maxTokens
  sequence := ["analyst", "synthesizer"]

section Mock

local instance mockHashlib : Hashlib := Hashlib.checksum
local instance mockUnicode : Unicode := Unicode.ascii
local instance mockFloat : PyFloat ℚ := PyFloat.rat

/-- Both requests are served. -/
theorem serve_kept : ∃ responses s',
    mockDeployment.serve ℚ [arrivalP, arrivalLong] ⟨(), {}⟩ = .ok responses s' ∧ True :=
  Returned.exists (by decide +kernel)

/-- A short prompt and a long one. -/
theorem Deployment.runs_kept_two : ∃ responses s',
    mockDeployment.serve ℚ [arrivalP, arrivalLong] ⟨(), {}⟩ = .ok responses s' ∧
      KeepsPrompts s'.store ([arrivalP, arrivalLong].zip responses) := by
  obtain ⟨responses, s', hserve, -⟩ := serve_kept
  have hconfig : ∀ a ∈ [arrivalP, arrivalLong], ∀ c,
      mockDeployment.config ℚ a.request = .ok c →
        a = arrivalP ∧ c = cascadeConfig 128 ∨ a = arrivalLong ∧ c = cascadeConfig 256 := by
    have hp : mockDeployment.config ℚ arrivalP.request = .ok (cascadeConfig 128) := by
      decide
    have hlong : mockDeployment.config ℚ arrivalLong.request = .ok (cascadeConfig 256) := by
      decide
    intro a ha c hc
    rcases List.mem_pair.mp ha with rfl | rfl
    · exact .inl ⟨rfl, Except.ok.inj (hc.symm.trans hp)⟩
    · exact .inr ⟨rfl, Except.ok.inj (hc.symm.trans hlong)⟩
  have hids : (cascadeConfig 128).runId ≠ (cascadeConfig 256).runId := by
    intro h
    have hchars := congrArg String.toList h
    rw [InferConfig.toList_runId, InferConfig.toList_runId] at hchars
    exact absurd hchars (by decide +kernel)
  have hcollision : mockDeployment.CollisionFree ℚ [arrivalP, arrivalLong] := by
    intro a ha a' ha' c c' hc hc' hid
    rcases hconfig a ha c hc with ⟨-, rfl⟩ | ⟨-, rfl⟩ <;>
      rcases hconfig a' ha' c' hc' with ⟨-, rfl⟩ | ⟨-, rfl⟩
    · rfl
    · exact absurd hid hids
    · exact absurd hid.symm hids
    · rfl
  have hkept := runs_kept_iff ℚ mockDeployment [arrivalP, arrivalLong] ⟨(), {}⟩ s' responses
    (by decide) hserve hcollision
  refine ⟨responses, s', hserve, hkept.1.mpr ?_⟩
  rintro a ha a' ha' ⟨c, hc, hc'⟩
  rcases hconfig a ha c hc with ⟨rfl, rfl⟩ | ⟨rfl, rfl⟩ <;>
    rcases hconfig a' ha' _ hc' with ⟨rfl, h⟩ | ⟨rfl, h⟩
  · rfl
  · exact absurd h (by decide)
  · exact absurd h (by decide)
  · rfl

/-- The second of two requests that differ only in their prompts replaces the record of the
first. -/
theorem Deployment.run_replaced :
    mockDeployment.CollisionFree ℚ [arrivalP, arrivalQ] ∧
      ∃ responses s', mockDeployment.serve ℚ [arrivalP, arrivalQ] ⟨(), {}⟩ = .ok responses s' ∧
        responses.map (fun r => (s'.store.get r.runId).map (Option.map (·.prompt))) =
          [.ok (some "q"), .ok (some "q")] := by
  have hconfig : ∀ b ∈ [arrivalP, arrivalQ], mockDeployment.config ℚ b.request =
      .ok (cascadeConfig 128) := by
    have hp : mockDeployment.config ℚ arrivalP.request = .ok (cascadeConfig 128) := by
      decide
    have hq : mockDeployment.config ℚ arrivalQ.request = .ok (cascadeConfig 128) := by
      decide
    intro b hb
    rcases List.mem_pair.mp hb with rfl | rfl
    · exact hp
    · exact hq
  constructor
  · intro a ha a' ha' c c' hc hc' _
    exact Except.ok.inj ((hc.symm.trans (hconfig a ha)).trans ((hconfig a' ha').symm.trans hc'))
  · obtain ⟨responses, s', hserve, -⟩ : ∃ responses s',
        mockDeployment.serve ℚ [arrivalP, arrivalQ] ⟨(), {}⟩ = .ok responses s' ∧ True :=
      Returned.exists (by decide +kernel)
    refine ⟨responses, s', hserve, ?_⟩
    obtain ⟨hlen, hstore, hids⟩ := serve_spec ℚ (by decide) hserve
    obtain ⟨r₁, r₂, rfl⟩ := List.length_eq_two.mp hlen.symm
    have hid : ∀ p ∈ [arrivalP, arrivalQ].zip [r₁, r₂], p.2.runId = (cascadeConfig 128).runId := by
      intro p hp
      obtain ⟨c, hc, hrunId⟩ := hids p hp
      rw [hconfig p.1 (List.of_mem_zip hp).1] at hc
      cases hc
      exact hrunId
    have hp : r₁.runId = (cascadeConfig 128).runId := hid (arrivalP, r₁) (by simp)
    have hq : r₂.runId = (cascadeConfig 128).runId := hid (arrivalQ, r₂) (by simp)
    -- both are saved under one id, so what is found is the second
    have hfound : s'.store.get r₂.runId = .ok (some (r₂.record arrivalQ)) := by
      rw [hstore]
      exact RunStore.get_save _ (r₂.record arrivalQ)
    rw [List.map_cons, List.map_singleton, hp, ← hq, hfound]
    rfl

end Mock

end Chen
