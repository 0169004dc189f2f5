import Chen.Phases.Steps

/-!
# Whole runs

The loops of the three phases make the same kind of iterations. `Phase.Reaches` is the set of
points a loop can get to, `Phase.Returns` and `Phase.Raises` are the two ways a run can end.
Every run of every pipeline is shown to end in one of them, so a law of the runs is an induction
over `Reaches`.
-/

namespace Chen

open Effect

variable {σ μ : Type}

namespace Phase

variable (ph : Phase σ) (prompt : String) (kwargs : Kwargs)

/-- A loop has done these names with these calls, and stands at these loop variables and
`text_mode`. -/
inductive Reaches : List String → List (Call σ) → Progress → Bool → Prop
  | start :
      Reaches [] [] { metrics := { cost := ph.base.cost }, currentText := prompt, kwargs }
        ph.startText
  | step {done : List String} {cs cs' : List (Call σ)} {st st' : Progress} {textMode textMode' : Bool}
      {name : String} (hreach : Reaches done cs st textMode)
      (hiter : ph.Iterated done.isEmpty name st textMode cs' st' textMode') :
      Reaches (done ++ [name]) (cs ++ cs') st' textMode'

/-- A run over `names` made these calls and returned this result. -/
inductive Returns (names : List String) (cs : List (Call σ)) (result : PipelineResult) : Prop
  | intro {st : Progress} {textMode : Bool} (hreach : ph.Reaches prompt kwargs names cs st textMode)
      (hmetrics : result.metrics = st.metrics.finalize (names.filterMap ph.base.find))
      (hperExpert : result.perExpert = st.perExpert) (houtput : result.output = st.currentText)
      (hselected : result.selectedExperts = names)

/-- A run over `names` made these calls and raised: one of its iterations did. -/
inductive Raises (names : List String) : List (Call σ) → Exn → Prop
  | intro {done rest : List String} {name : String} {cs cs' : List (Call σ)} {st : Progress}
      {textMode : Bool} {x : Exn} (hsplit : done ++ name :: rest = names)
      (hreach : ph.Reaches prompt kwargs done cs st textMode)
      (hstop : ph.Stopped done.isEmpty name st textMode cs' x) :
      Raises names (cs ++ cs') x

variable {ph prompt kwargs}

/-- A loop that has not begun has made no calls. -/
theorem Reaches.calls_of_nil {cs : List (Call σ)} {st : Progress} {textMode : Bool}
    (h : ph.Reaches prompt kwargs [] cs st textMode) : cs = [] := by
  generalize hdone : ([] : List String) = done at h
  cases h with
  | start => rfl
  | step => simp at hdone

/-- A loop that has begun has made an inference. -/
theorem Reaches.inferences_ne_nil {done : List String} {cs : List (Call σ)} {st : Progress}
    {textMode : Bool} (h : ph.Reaches prompt kwargs done cs st textMode) (hdone : done ≠ []) :
    inferences cs ≠ [] := by
  cases h with
  | start => exact absurd rfl hdone
  | step _ hiter =>
    obtain ⟨-, htrace, -⟩ := hiter
    rw [inferences_append]
    exact List.append_ne_nil_of_right_ne_nil _ htrace.inferences_ne_nil

/-- A loop that has not begun has the first `text_mode`. -/
theorem Reaches.textMode_of_nil {cs : List (Call σ)} {st : Progress} {textMode : Bool}
    (h : ph.Reaches prompt kwargs [] cs st textMode) : textMode = ph.startText := by
  generalize hdone : ([] : List String) = done at h
  cases h with
  | start => rfl
  | step => simp at hdone

/-- Every expert that ran is an expert of the pipeline. -/
theorem Reaches.found {done : List String} {cs : List (Call σ)} {st : Progress} {textMode : Bool}
    (h : ph.Reaches prompt kwargs done cs st textMode) :
    ∀ n ∈ done, ∃ e, ph.base.find n = some e := by
  induction h with
  | start => simp
  | step _ hiter ih =>
    obtain ⟨hfind, -, -⟩ := hiter
    intro n hn
    rcases List.mem_append.mp hn with hn | hn
    · exact ih n hn
    · rw [List.mem_singleton.mp hn]
      exact ⟨_, hfind⟩

end Phase

/-- Names that are all found have their experts. -/
theorem Pipeline.getExperts_eq (p : Pipeline σ) {names : List String}
    (h : ∀ n ∈ names, ∃ e, p.find n = some e) :
    p.getExperts names = .ok (names.filterMap p.find) := by
  induction names with
  | nil => rfl
  | cons n ns ih =>
    obtain ⟨e, he⟩ := h n (by simp)
    have htail := ih fun m hm => h m (by simp [hm])
    unfold getExperts at htail ⊢
    rw [List.mapM_cons, htail, getExpert, he, List.filterMap_cons, he]
    rfl

/-! ## The loop -/

/-- A loop over numbered names goes through the names, the first of which has the number 0. -/
theorem zipIdx_split {names : List String} {done rest : List (String × ℕ)} {item : String × ℕ}
    (h : done ++ item :: rest = names.zipIdx) :
    done.map Prod.fst ++ item.1 :: rest.map Prod.fst = names ∧ (item.2 = 0 ↔ done = []) := by
  have hnames : names = (done ++ item :: rest).map Prod.fst := by
    rw [h, List.zipIdx_map_fst]
  have hitem : names.zipIdx[done.length]? = some item := by
    rw [← h, List.getElem?_append_right (Nat.le_refl _), Nat.sub_self, List.getElem?_cons_zero]
  obtain ⟨n, -, hn⟩ : ∃ n, names[done.length]? = some n ∧ (n, done.length) = item := by
    simpa [List.getElem?_zipIdx] using hitem
  refine ⟨by simp [hnames], ?_⟩
  rw [← hn]
  exact List.length_eq_zero_iff

section Loop

variable [Memory μ] (ph : Phase σ) (prompt : String) (kwargs : Kwargs) {S : Type}
  (progress : S → Progress) (textMode : S → Bool)

omit [Memory μ] in
/-- The loop over a sequence, for loop variables `S` that hold a `Progress` and a `text_mode`. -/
theorem loop_emits {step : S → String × ℕ → Run σ μ S} (names : List String)
    (hstep : ∀ st item, (item.2 = 0 → textMode st = ph.startText) →
      Emits handoffs (step st item)
        (Ends (fun cs st' => ph.Iterated (item.2 = 0) item.1 (progress st) (textMode st) cs
            (progress st') (textMode st'))
          (ph.Stopped (item.2 = 0) item.1 (progress st) (textMode st))))
    {init : S} (hinit : progress init =
      { metrics := { cost := ph.base.cost }, currentText := prompt, kwargs })
    (htext : textMode init = ph.startText) :
    Emits handoffs (names.zipIdx.foldlM step init)
      (Ends (fun cs st => ph.Reaches prompt kwargs names cs (progress st) (textMode st))
        (ph.Raises prompt kwargs names)) := by
  refine (Emits.foldlM (E := ph.Raises prompt kwargs names)
    (I := fun done cs st =>
      ph.Reaches prompt kwargs (done.map Prod.fst) cs (progress st) (textMode st)) ?_ ?_).mono ?_
  · intro done item rest hsplit cs st hreach
    obtain ⟨hnames, hzero⟩ := zipIdx_split hsplit
    -- the number of the name is 0 exactly in the first iteration
    have hfirst : (decide (item.2 = 0)) = (done.map Prod.fst).isEmpty := by
      rw [Bool.eq_iff_iff]
      simp [hzero]
    refine (hstep st item fun h => ?_).mono ?_
    · rw [hzero.mp h] at hreach
      exact hreach.textMode_of_nil
    · rintro cs' (x | st') hend
      · rw [Ends, hfirst] at hend
        exact .intro hnames hreach hend
      · rw [Ends, hfirst] at hend
        rw [Ends, List.map_append]
        exact .step hreach hend
  · rw [hinit, htext]
    exact .start
  · rintro cs (x | st) hend
    · exact hend
    · simpa only [Ends, List.zipIdx_map_fst] using hend

/-- A whole run: the prompt is written to memory, the loop runs, the result is put together. -/
theorem run_emits {names : List String} {loop : Run σ μ S}
    (hloop : Emits handoffs loop
      (Ends (fun cs st => ph.Reaches prompt kwargs names cs (progress st) (textMode st))
        (ph.Raises prompt kwargs names)))
    (write : Bool) (build : S → List (Expert σ) → PipelineResult)
    (hmetrics : ∀ st es, (build st es).metrics = (progress st).metrics.finalize es)
    (hperExpert : ∀ st es, (build st es).perExpert = (progress st).perExpert)
    (houtput : ∀ st es, (build st es).output = (progress st).currentText)
    (hselected : ∀ st es, (build st es).selectedExperts = names) :
    Emits handoffs (do
      writePrompt write prompt
      let st ← loop
      let experts ← liftExcept (ph.base.getExperts names)
      pure (build st experts))
      (Ends (ph.Returns prompt kwargs names) (ph.Raises prompt kwargs names)) := by
  refine (writePrompt_emits write prompt).bind_silent fun _ _ => hloop.bind ?_ (fun _ _ h => h)
  intro cs st hreach
  rw [Ends] at hreach
  rw [ph.base.getExperts_eq hreach.found]
  refine Emits.pure ?_
  rw [List.append_nil]
  exact ⟨hreach, hmetrics _ _, hperExpert _ _, houtput _ _, hselected _ _⟩

/-- A run of phase 1. -/
theorem CascadePipeline.run_emits (p : CascadePipeline σ) :
    Emits handoffs (p.run prompt kwargs : Run σ μ PipelineResult)
      (Ends (p.phase.Returns prompt kwargs p.sequence.names)
        (p.phase.Raises prompt kwargs p.sequence.names)) := by
  refine Chen.run_emits p.phase prompt kwargs id (fun _ => true) ?_
    p.writeIntermediateToMemory _ (fun _ _ => rfl) (fun _ _ => rfl) (fun _ _ => rfl) (fun _ _ => rfl)
  exact loop_emits p.phase prompt kwargs id (fun _ => true) p.sequence.names
    (fun st item _ => p.step_emits st item) rfl rfl

/-- A run of phase 2. -/
theorem KVPassPipeline.run_emits (p : KVPassPipeline σ) :
    Emits handoffs (p.run prompt kwargs : Run σ μ PipelineResult)
      (Ends (p.phase.Returns prompt kwargs p.sequence.names)
        (p.phase.Raises prompt kwargs p.sequence.names)) := by
  refine Chen.run_emits p.phase prompt kwargs HandoffProgress.toProgress HandoffProgress.textMode ?_
    p.writeIntermediateToMemory _ (fun _ _ => rfl) (fun _ _ => rfl) (fun _ _ => rfl) (fun _ _ => rfl)
  exact loop_emits p.phase prompt kwargs _ _ p.sequence.names
    (fun st item h => p.step_emits prompt st item h) rfl rfl

/-- A routed run. A router that raises leaves the trace empty. -/
theorem RoutingPipeline.run_emits (p : RoutingPipeline σ) :
    Emits handoffs (p.run prompt kwargs : Run σ μ PipelineResult) fun cs r =>
      (∃ x, p.selectNames prompt = .error x ∧ cs = [] ∧ r = .error x) ∨
      ∃ names, p.selectNames prompt = .ok names ∧
        Ends (p.phase.Returns prompt kwargs names) (p.phase.Raises prompt kwargs names) cs r := by
  cases hselect : p.selectNames prompt with
  | error x =>
    unfold run
    rw [hselect]
    exact Emits.throw (.inl ⟨x, rfl, rfl, rfl⟩)
  | ok names =>
    have hends : Emits handoffs (p.run prompt kwargs : Run σ μ PipelineResult)
        (Ends (p.phase.Returns prompt kwargs names) (p.phase.Raises prompt kwargs names)) := by
      unfold run
      rw [hselect]
      refine Chen.run_emits p.phase prompt kwargs HandoffProgress.toProgress
        HandoffProgress.textMode ?_ p.writeIntermediateToMemory _ (fun _ _ => rfl) (fun _ _ => rfl)
        (fun _ _ => rfl) (fun _ _ => rfl)
      exact loop_emits p.phase prompt kwargs _ _ names
        (fun st item _ => p.step_emits prompt names.length st item) rfl rfl
    exact hends.mono fun cs r h => .inr ⟨names, rfl, h⟩

end Loop

/-! ## One run, whichever the phase -/

/-- A pipeline of one of the three phases. -/
inductive AnyPipeline (σ : Type) where
  | cascade (p : CascadePipeline σ)
  | kvPass (p : KVPassPipeline σ)
  | routing (p : RoutingPipeline σ)

namespace AnyPipeline

/-- `pipeline.run(prompt, **kwargs)`. -/
def run [Memory μ] (prompt : String) (kwargs : Kwargs) : AnyPipeline σ → Run σ μ PipelineResult
  | .cascade p => p.run prompt kwargs
  | .kvPass p => p.run prompt kwargs
  | .routing p => p.run prompt kwargs

/-- The names a run goes through: the static sequence, or what is selected for the prompt. -/
def names (prompt : String) : AnyPipeline σ → Except Exn (List String)
  | .cascade p => .ok p.sequence.names
  | .kvPass p => .ok p.sequence.names
  | .routing p => p.selectNames prompt

/-- The experts of the pipeline and its cost model. -/
def base : AnyPipeline σ → Pipeline σ
  | .cascade p => p.toPipeline
  | .kvPass p => p.toPipeline
  | .routing p => p.toPipeline

/-- `max_tokens_per_expert`. -/
def maxTokensPerExpert : AnyPipeline σ → ℤ
  | .cascade p => p.maxTokensPerExpert
  | .kvPass p => p.maxTokensPerExpert
  | .routing p => p.maxTokensPerExpert

/-- `write_intermediate_to_memory`. -/
def writeIntermediateToMemory : AnyPipeline σ → Bool
  | .cascade p => p.writeIntermediateToMemory
  | .kvPass p => p.writeIntermediateToMemory
  | .routing p => p.writeIntermediateToMemory

/-- `memory_retrieve_k`. -/
def memoryRetrieveK : AnyPipeline σ → ℤ
  | .cascade p => p.memoryRetrieveK
  | .kvPass p => p.memoryRetrieveK
  | .routing p => p.memoryRetrieveK

/-- `fallback_to_text`. A cascade has nothing to fall back from. -/
def fallbackToText : AnyPipeline σ → Bool
  | .cascade _ => true
  | .kvPass p => p.fallbackToText
  | .routing p => p.fallbackToText

/-- The first step's `invoke` stands inside a `try`. -/
def guardsFirst : AnyPipeline σ → Bool
  | .routing _ => true
  | _ => false

def phase : AnyPipeline σ → Phase σ
  | .cascade p => p.phase
  | .kvPass p => p.phase
  | .routing p => p.phase

/-- The phase has the experts and the costs of its pipeline. -/
theorem phase_base (p : AnyPipeline σ) : p.phase.base = p.base := by
  cases p <;> rfl

/-- The phase guards its first step as its pipeline does. -/
theorem phase_guarded (p : AnyPipeline σ) : p.phase.guarded = p.guardsFirst := by
  cases p <;> rfl

/-- The phase has the fallback of its pipeline. -/
theorem phase_fallbackToText (p : AnyPipeline σ) : p.phase.fallbackToText = p.fallbackToText := by
  cases p <;> rfl

/-- The phase has the budget of its pipeline. -/
theorem phase_maxTokensPerExpert (p : AnyPipeline σ) :
    p.phase.maxTokensPerExpert = p.maxTokensPerExpert := by
  cases p <;> rfl

variable [Memory μ] {prompt : String} {kwargs : Kwargs} {p : AnyPipeline σ} {s : RunState σ μ}

/-- A run of any pipeline: its router raises, or it goes through the names. -/
theorem run_emits (prompt : String) (kwargs : Kwargs) (p : AnyPipeline σ) :
    Emits handoffs (p.run prompt kwargs : Run σ μ PipelineResult) fun cs r =>
      (∃ x, p.names prompt = .error x ∧ cs = [] ∧ r = .error x) ∨
      ∃ names, p.names prompt = .ok names ∧
        Ends (p.phase.Returns prompt kwargs names) (p.phase.Raises prompt kwargs names) cs r := by
  cases p with
  | cascade p => exact (p.run_emits prompt kwargs).mono fun _ _ h => .inr ⟨_, rfl, h⟩
  | kvPass p => exact (p.run_emits prompt kwargs).mono fun _ _ h => .inr ⟨_, rfl, h⟩
  | routing p => exact p.run_emits prompt kwargs

/-- A run over names, from an empty trace. -/
theorem run_ends {names : List String} (hs : s.calls = []) (hnames : p.names prompt = .ok names) :
    Ends (p.phase.Returns prompt kwargs names) (p.phase.Raises prompt kwargs names)
      (handoffs (final (p.run prompt kwargs s))) (outcome (p.run prompt kwargs s)) := by
  have hempty : handoffs s = [] := by rw [handoffs, hs, List.filter_nil]
  rcases (run_emits prompt kwargs p).run hempty with ⟨x, hx, -, -⟩ | ⟨names', hnames', h⟩
  · rw [hnames] at hx
    cases hx
  · rw [hnames] at hnames'
    cases hnames'
    exact h

/-- A run that returned goes through the names of its result. -/
theorem run_returns {s' : RunState σ μ} {result : PipelineResult} (hs : s.calls = [])
    (hrun : p.run prompt kwargs s = .ok result s') :
    p.names prompt = .ok result.selectedExperts ∧
      p.phase.Returns prompt kwargs result.selectedExperts (handoffs s') result := by
  have hempty : handoffs s = [] := by rw [handoffs, hs, List.filter_nil]
  have h := (run_emits prompt kwargs p).run hempty
  rw [hrun] at h
  rcases h with ⟨x, -, -, hx⟩ | ⟨names, hnames, hends⟩
  · cases hx
  · obtain ⟨_, _, _, _, rfl⟩ := id hends
    exact ⟨hnames, hends⟩

end AnyPipeline

/-! ## Two scripted experts -/

/-- A pipeline of two experts that answer from scripts. -/
def duo (a b : Script) : Pipeline Unit where
  experts := [⟨"a", .analyst, a.backend, ""⟩, ⟨"b", .synthesizer, b.backend, ""⟩]
  cost := {}
  experts_ne := by simp

theorem duo_names_ne : ["a", "b"] ≠ [] := List.cons_ne_nil _ _

/-- Phase 2 over expert `a`, then `b`, without memory. -/
def duoKVPass (a b : Script) : KVPassPipeline Unit where
  toPipeline := duo a b
  sequence := ⟨["a", "b"], duo_names_ne, by simp [duo, Pipeline.find]⟩
  writeIntermediateToMemory := false
  memoryRetrieveK := 0

/-- Phase 1 over expert `a`, then `b`, then `a` again, without memory. -/
def duoCascade (a b : Script) : CascadePipeline Unit where
  toPipeline := duo a b
  sequence := ⟨["a", "b", "a"], by simp, by simp [duo, Pipeline.find]⟩
  writeIntermediateToMemory := false
  memoryRetrieveK := 0

/-- Phase 3 over the same experts, without memory, with a router that always answers `names`. -/
def duoRouting (a b : Script) (handoff : Handoff) (names : List String) :
    RoutingPipeline Unit where
  toPipeline := duo a b
  router := ⟨some "fixed", fun _ _ => .ok names⟩
  handoff
  writeIntermediateToMemory := false
  memoryRetrieveK := 0

/-- The start of a run on stateless backends. -/
def idle : RunState Unit NoMemory where
  world := ()
  memory := .mk
  clock := fun _ => 0

/-- A backend that refuses every cache. -/
def refusing : Script where
  transferCache _ := .error (.incompatibleCache "layer mismatch")

end Chen
