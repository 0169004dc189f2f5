import Chen.Backends.Mock
import Chen.Core.Invocation
import Chen.Library.Ensures
import Chen.Phases.Runs

/-!
# The tokens that a run meters

The numbers of tokens come from the backends' own counts, and where these fail from an estimate that
is at least one. They are negative only if a backend counts a negative number.
-/

namespace Chen

open Effect

variable {σ μ : Type}

/-- The backend counts no negative number of tokens. -/
def Backend.CountsUp (b : Backend σ) : Prop :=
  ∀ count, b.countTokens = some count → ∀ text, Ensures (count text) (0 ≤ ·)

/-- No number of tokens is negative. -/
def ExpertMetrics.Countable (m : ExpertMetrics) : Prop := 0 ≤ m.inputTokens ∧ 0 ≤ m.outputTokens

/-- An estimate is not negative. -/
theorem Str.estimateTokens_nonneg (text : String) : 0 ≤ Str.estimateTokens text :=
  Int.le_trans (by decide) (le_max_left 1 _)

/-- The mock backend counts no negative number of tokens. -/
theorem MockBackend.countsUp [Hashlib] [Unicode] (b : MockBackend) :
    (b.backend : Backend σ).CountsUp := by
  intro count hcount text
  cases hcount
  exact Ensures.pure (Str.estimateTokens_nonneg text)

/-! ## One invocation -/

namespace Expert

variable {e : Expert σ} (he : e.backend.CountsUp)

include he

/-- The tokens of a text and of its answer are not negative. -/
theorem Counts.nonneg {text output : String} {i o : ℤ} {w w' : σ}
    (h : e.Counts text output w i o w') : 0 ≤ i ∧ 0 ≤ o := by
  cases h with
  | absent | inputFailed | outputFailed =>
    exact ⟨Str.estimateTokens_nonneg text, Str.estimateTokens_nonneg output⟩
  | counted hcount hin hout =>
    exact ⟨he _ hcount _ _ _ _ hin, he _ hcount _ _ _ _ hout⟩

/-- The metrics of an answer can be counted. -/
theorem conclude_countable (text output : String) (latencyMs cacheTransferMs : ℚ)
    (usedKV succeeded : Bool) :
    Ensures (e.conclude text output latencyMs cacheTransferMs usedKV succeeded :
      Run σ μ (String × Option KVCache × ExpertMetrics)) (·.2.2.Countable) := by
  intro s answer s' h
  obtain ⟨_, _, hrun, -, -, _, -, hcounts⟩ :=
    e.conclude_gives text output latencyMs cacheTransferMs usedKV succeeded s.world s rfl
  cases hrun.symm.trans h
  exact hcounts.nonneg he

/-- So can those of an `invoke` on a text. -/
theorem invokeText_countable (text : String) (maxTokens : ℤ) :
    Ensures (e.invokeText text maxTokens : Run σ μ (String × Option KVCache × ExpertMetrics))
      (·.2.2.Countable) :=
  Ensures.bind_right fun _ => conclude_countable he _ _ _ _ _ _

/-- So can those of an `invoke` on a cache. -/
theorem invokeCache_countable (cache : KVCache) (maxTokens : ℤ) :
    Ensures (e.invokeCache cache maxTokens : Run σ μ (String × Option KVCache × ExpertMetrics))
      (·.2.2.Countable) := by
  refine Ensures.bind_right fun transfer => ?_
  obtain ⟨transferred, cacheTransferMs⟩ := transfer
  cases transferred with
  | ok cache' => exact Ensures.bind_right fun _ => conclude_countable he _ _ _ _ _ _
  | error x => exact Ensures.bind_right fun _ => conclude_countable he _ _ _ _ _ _

/-- So can those of every `invoke`. -/
theorem invoke_countable (prompt : Option String) (cache : Option KVCache) (maxTokens : ℤ) :
    Ensures (e.invoke prompt cache maxTokens : Run σ μ (String × Option KVCache × ExpertMetrics))
      (·.2.2.Countable) := by
  cases cache with
  | none =>
    cases prompt with
    | none => exact Ensures.throw _
    | some text => exact invokeText_countable he text maxTokens
  | some cache =>
    rw [invoke_cache]
    split
    case isTrue => exact invokeCache_countable he cache maxTokens
    case isFalse => exact invokeText_countable he cache.sourceText maxTokens

variable [Memory μ]

/-- So can those of an `invoke` with entries from memory. -/
theorem invokeExpert_countable (prompt : Option String) (cache : Option KVCache)
    (maxTokens k : ℤ) :
    Ensures (invokeExpert e prompt cache maxTokens k :
      Run σ μ (String × Option KVCache × ExpertMetrics)) (·.2.2.Countable) :=
  Ensures.bind_right fun _ => invoke_countable he _ _ _

/-- So can those of a step behind the first. -/
theorem handOver_countable (fallbackToText : Bool) (maxTokens : ℤ) (st : HandoffProgress) :
    Ensures (handOver e fallbackToText maxTokens st : Run σ μ Invocation)
      (·.metrics.Countable) := by
  rw [handOver]
  split
  · refine (invoke_countable he _ _ _).bind fun answer hanswer => ?_
    obtain ⟨output, outCache, m⟩ := answer
    dsimp only
    split_ifs
    · exact Ensures.pure hanswer
    · exact (invokeExpert_countable he _ _ _ _).bind fun _ h => Ensures.pure h
    · exact Ensures.throw _
  · exact (invokeExpert_countable he _ _ _ _).bind fun _ h => Ensures.pure h

/-- So can those of the first step of phase 2. -/
theorem first_countable_kvPass (p : KVPassPipeline σ) (maxTokens : ℤ) (prompt : String) :
    Ensures (p.first e maxTokens prompt : Run σ μ Invocation) (·.metrics.Countable) := by
  refine Ensures.bind_right fun cache => ?_
  cases cache with
  | none => exact (invoke_countable he _ _ _).bind fun _ h => Ensures.pure h
  | some cache =>
    refine Ensures.bind_right fun _ => Ensures.bind_right fun _ => ?_
    exact (invoke_countable he _ _ _).bind fun _ h => Ensures.pure h

/-- So can those of the first step of phase 3. -/
theorem first_countable_routing (p : RoutingPipeline σ) (maxTokens : ℤ) (prompt : String)
    (textMode : Bool) :
    Ensures (p.first e maxTokens prompt textMode : Run σ μ Invocation) (·.metrics.Countable) := by
  rw [RoutingPipeline.first]
  split_ifs
  · refine Ensures.bind_right fun context => ?_
    obtain ⟨augmented, entriesRead⟩ := context
    have htry : Ensures (do
        let cache ← e.encode augmented
        let answer ← e.invoke none (some cache) maxTokens
        pure (cache, answer) : Run σ μ (KVCache × String × Option KVCache × ExpertMetrics))
        (·.2.2.2.Countable) :=
      Ensures.bind_right fun _ => (invoke_countable he _ _ _).bind fun _ h => Ensures.pure h
    refine htry.attempt.bind fun tried htried => ?_
    cases tried with
    | ok answer => exact Ensures.pure (htried answer rfl)
    | error x => exact (invokeExpert_countable he _ _ _ _).bind fun _ h => Ensures.pure h
  · exact (invokeExpert_countable he _ _ _ _).bind fun _ h => Ensures.pure h

end Expert

/-! ## Whole runs -/

/-- An expert that was looked up is one of the pipeline's. -/
theorem Pipeline.getExpert_mem {p : Pipeline σ} {name : String} {e : Expert σ}
    (h : p.getExpert name = .ok e) : e ∈ p.experts := by
  rw [getExpert] at h
  split at h
  case h_1 e' hfind =>
    cases h
    exact List.mem_reverse.mp (List.mem_of_find?_eq_some hfind)
  case h_2 => cases h

section Run

variable [Memory μ]

/-- One more record that can be counted. -/
theorem forall_countable_append {ms : List ExpertMetrics} {m : ExpertMetrics}
    (hms : ∀ m ∈ ms, m.Countable) (hm : m.Countable) : ∀ m' ∈ ms ++ [m], m'.Countable := by
  intro m' hm'
  rcases List.mem_append.mp hm' with hm' | hm'
  · exact hms m' hm'
  · rw [List.mem_singleton.mp hm']
    exact hm

/-- Recording a step keeps all metrics countable. -/
theorem recordHandoff_countable (e : Expert σ) (isLast write : Bool) (kwargs : Kwargs)
    {st : HandoffProgress} (hst : ∀ m ∈ st.perExpert, m.Countable) {inv : Invocation}
    (hinv : inv.metrics.Countable) :
    Ensures (recordHandoff e isLast write kwargs st inv : Run σ μ HandoffProgress)
      (∀ m ∈ ·.perExpert, m.Countable) := by
  rw [recordHandoff]
  cases write with
  | false => exact Ensures.pure (forall_countable_append hst hinv)
  | true =>
    exact Ensures.bind_right fun _ => Ensures.pure (forall_countable_append hst hinv)

/-- An iteration of phase 1 keeps all metrics countable. -/
theorem CascadePipeline.step_countable {p : CascadePipeline σ}
    (he : ∀ e ∈ p.experts, e.backend.CountsUp) (item : String × ℕ) {st : Progress}
    (hst : ∀ m ∈ st.perExpert, m.Countable) :
    Ensures (p.step st item : Run σ μ Progress) (∀ m ∈ ·.perExpert, m.Countable) := by
  refine (Ensures.liftExcept fun e => Pipeline.getExpert_mem).bind fun e hmem => ?_
  refine (Expert.invokeExpert_countable (he e hmem) _ _ _ _).bind fun answer hm => ?_
  cases p.writeIntermediateToMemory with
  | false => exact Ensures.pure (forall_countable_append hst hm)
  | true => exact Ensures.bind_right fun _ => Ensures.pure (forall_countable_append hst hm)

/-- So does an iteration of phase 2. -/
theorem KVPassPipeline.step_countable {p : KVPassPipeline σ}
    (he : ∀ e ∈ p.experts, e.backend.CountsUp) (prompt : String) (item : String × ℕ)
    {st : HandoffProgress} (hst : ∀ m ∈ st.perExpert, m.Countable) :
    Ensures (p.step prompt st item : Run σ μ HandoffProgress) (∀ m ∈ ·.perExpert, m.Countable) := by
  refine (Ensures.liftExcept fun e => Pipeline.getExpert_mem).bind fun e hmem => ?_
  have hinv : Ensures (if item.2 = 0 then
        p.first e (st.kwargs.popMaxTokens p.maxTokensPerExpert).1 prompt
      else handOver e p.fallbackToText (st.kwargs.popMaxTokens p.maxTokensPerExpert).1 st :
        Run σ μ Invocation) (·.metrics.Countable) := by
    split
    · exact Expert.first_countable_kvPass (he e hmem) p _ prompt
    · exact Expert.handOver_countable (he e hmem) _ _ st
  exact hinv.bind fun inv => recordHandoff_countable e _ _ _ hst

/-- So does an iteration of phase 3. -/
theorem RoutingPipeline.step_countable {p : RoutingPipeline σ}
    (he : ∀ e ∈ p.experts, e.backend.CountsUp) (prompt : String) (n : ℕ) (item : String × ℕ)
    {st : HandoffProgress} (hst : ∀ m ∈ st.perExpert, m.Countable) :
    Ensures (p.step prompt n st item : Run σ μ HandoffProgress)
      (∀ m ∈ ·.perExpert, m.Countable) := by
  refine (Ensures.liftExcept fun e => Pipeline.getExpert_mem).bind fun e hmem => ?_
  have hinv : Ensures (if item.2 = 0 then
        p.first e (st.kwargs.popMaxTokens p.maxTokensPerExpert).1 prompt st.textMode
      else handOver e p.fallbackToText (st.kwargs.popMaxTokens p.maxTokensPerExpert).1 st :
        Run σ μ Invocation) (·.metrics.Countable) := by
    split
    · exact Expert.first_countable_routing (he e hmem) p _ prompt st.textMode
    · exact Expert.handOver_countable (he e hmem) _ _ st
  exact hinv.bind fun inv => recordHandoff_countable e _ _ _ hst

/-- No run over such backends meters a negative number of tokens. -/
theorem AnyPipeline.run_countable {p : AnyPipeline σ}
    (he : ∀ e ∈ p.base.experts, e.backend.CountsUp) (prompt : String) (kwargs : Kwargs) :
    Ensures (p.run prompt kwargs : Run σ μ PipelineResult) (∀ m ∈ ·.perExpert, m.Countable) := by
  cases p with
  | cascade p =>
    refine Ensures.bind_right fun _ => ?_
    refine (Ensures.foldlM (I := fun st : Progress => ∀ m ∈ st.perExpert, m.Countable)
      (fun item _ st hst => p.step_countable he item hst) (List.forall_mem_nil _)).bind ?_
    intro st hst
    exact Ensures.bind_right fun _ => Ensures.pure hst
  | kvPass p =>
    refine Ensures.bind_right fun _ => ?_
    refine (Ensures.foldlM (I := fun st : HandoffProgress => ∀ m ∈ st.perExpert, m.Countable)
      (fun item _ st hst => p.step_countable he prompt item hst) (List.forall_mem_nil _)).bind ?_
    intro st hst
    exact Ensures.bind_right fun _ => Ensures.pure hst
  | routing p =>
    refine Ensures.bind_right fun selected => Ensures.bind_right fun _ => ?_
    refine (Ensures.foldlM (I := fun st : HandoffProgress => ∀ m ∈ st.perExpert, m.Countable)
      (fun item _ st hst => p.step_countable he prompt selected.length item hst)
      (List.forall_mem_nil _)).bind ?_
    intro st hst
    exact Ensures.bind_right fun _ => Ensures.pure hst

end Run

end Chen
