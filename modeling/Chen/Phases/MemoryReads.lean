import Chen.Core.Invocation
import Chen.Core.MemoryCount
import Chen.Library.Tally
import Chen.Phases.IntermediateMemory
import Mathlib.Tactic.NormNum

/-!
# The memory entries a run has read

`memory_entries_read` is kept by the phases, while the entries are retrieved in `_invoke_expert` and
in the first steps of phases 2 and 3. Here each phase is written once more with a tally beside the
state, which goes up by the number of entries wherever some are put in front of a prompt. The
metric is compared with the tally.
-/

namespace Chen

open Effect

variable {σ μ : Type}

/-- A program of a run that also counts the entries it puts in front of prompts. -/
abbrev ReadingRun (σ μ α : Type) : Type := EStateM Exn (RunState σ μ × ℕ) α

/-! ## The phases with a tally -/

section Reading

variable [Memory μ]

/-- The entries in front of a prompt, when `k` are asked for. -/
def contextOf (k : ℤ) (prompt : String) (m : μ) : List MemoryEntry :=
  if 0 < k then Memory.retrieve prompt k m else []

/-- `invokeExpert` on a prompt. -/
def invokeExpertReading (expert : Expert σ) (prompt : String) (maxTokens k : ℤ) :
    ReadingRun σ μ (String × Option KVCache × ExpertMetrics) := do
  let s ← get
  tally (contextOf k prompt s.1.memory).length
  onFirst (invokeExpert expert (some prompt) none maxTokens k)

/-- `retrieveContext`. -/
def retrieveContextReading (k : ℤ) (prompt : String) : ReadingRun σ μ (String × ℤ) := do
  let s ← get
  tally (contextOf k prompt s.1.memory).length
  onFirst (retrieveContext k prompt)

/-- `CascadePipeline.step`. -/
def CascadePipeline.stepReading (p : CascadePipeline σ) (st : Progress) (item : String × ℕ) :
    ReadingRun σ μ Progress := do
  let expert ← liftExcept (p.getExpert item.1)
  let isLast := item.2 + 1 == p.sequence.names.length
  let (maxTokens, kwargs) := st.kwargs.popMaxTokens p.maxTokensPerExpert
  let (output, _, m) ← invokeExpertReading expert st.currentText maxTokens p.memoryRetrieveK
  onFirst do
    let metrics := st.metrics.add m
    if p.writeIntermediateToMemory then writeMemory (stepEntry expert output isLast)
    let metrics :=
      if p.writeIntermediateToMemory then
        { metrics with memoryEntriesWritten := metrics.memoryEntriesWritten + 1 }
      else metrics
    let metrics :=
      if 0 < p.memoryRetrieveK then
        { metrics with memoryEntriesRead := metrics.memoryEntriesRead + p.memoryRetrieveK }
      else metrics
    pure
      { metrics
        perExpert := st.perExpert ++ [m]
        currentText := output
        kwargs }

/-- `CascadePipeline.run`. -/
def CascadePipeline.runReading (p : CascadePipeline σ) (prompt : String) (kwargs : Kwargs) :
    ReadingRun σ μ PipelineResult := do
  onFirst (writePrompt p.writeIntermediateToMemory prompt)
  let st ← p.sequence.names.zipIdx.foldlM p.stepReading
    { metrics := { cost := p.cost }, currentText := prompt, kwargs }
  let experts ← liftExcept (p.getExperts p.sequence.names)
  pure
    { output := st.currentText
      metrics := st.metrics.finalize experts
      perExpert := st.perExpert
      selectedExperts := p.sequence.names
      metadata := { phase := 1, handoff := "text", sequence := some p.sequence.names } }

/-- `KVPassPipeline.first`. -/
def KVPassPipeline.firstReading (p : KVPassPipeline σ) (expert : Expert σ) (maxTokens : ℤ)
    (prompt : String) : ReadingRun σ μ Invocation := do
  match ← onFirst (encodePrompt expert prompt) with
  | none =>
    onFirst do
      let (output, outCache, m) ← expert.invoke (some prompt) none maxTokens
      pure { output, outCache, metrics := m, currentCache := none, textMode := true }
  | some cache =>
    let (augmented, entriesRead) ← retrieveContextReading p.memoryRetrieveK prompt
    onFirst do
      let current ← reencode expert cache prompt augmented
      let (output, outCache, m) ← expert.invoke none (some current) maxTokens
      pure
        { output, outCache, metrics := m, currentCache := some current, textMode := false,
          entriesRead }

/-- `KVPassPipeline.step`. -/
def KVPassPipeline.stepReading (p : KVPassPipeline σ) (prompt : String) (st : HandoffProgress)
    (item : String × ℕ) : ReadingRun σ μ HandoffProgress := do
  let expert ← liftExcept (p.getExpert item.1)
  let isLast := item.2 + 1 == p.sequence.names.length
  let (maxTokens, kwargs) := st.kwargs.popMaxTokens p.maxTokensPerExpert
  let inv ←
    (if item.2 = 0 then p.firstReading expert maxTokens prompt
     else onFirst (handOver expert p.fallbackToText maxTokens st))
  onFirst (recordHandoff expert isLast p.writeIntermediateToMemory kwargs st inv)

/-- `KVPassPipeline.run`. -/
def KVPassPipeline.runReading (p : KVPassPipeline σ) (prompt : String) (kwargs : Kwargs) :
    ReadingRun σ μ PipelineResult := do
  onFirst (writePrompt p.writeIntermediateToMemory prompt)
  let st ← p.sequence.names.zipIdx.foldlM (p.stepReading prompt)
    { metrics := { cost := p.cost }, currentText := prompt, textMode := false, kwargs }
  let experts ← liftExcept (p.getExperts p.sequence.names)
  pure
    { output := st.currentText
      metrics := st.metrics.finalize experts
      perExpert := st.perExpert
      selectedExperts := p.sequence.names
      metadata :=
        { phase := 2, handoff := "kv_cache", textModeFallback := some st.textMode
          sequence := some p.sequence.names } }

/-- `RoutingPipeline.first`. -/
def RoutingPipeline.firstReading (p : RoutingPipeline σ) (expert : Expert σ) (maxTokens : ℤ)
    (prompt : String) (textMode : Bool) : ReadingRun σ μ Invocation := do
  if !textMode && expert.capabilities.supportsKVCache then
    let (augmented, entriesRead) ← retrieveContextReading p.memoryRetrieveK prompt
    let tried ← onFirst (attempt do
      let cache ← expert.encode augmented
      let answer ← expert.invoke none (some cache) maxTokens
      pure (cache, answer))
    match tried with
    | .ok (cache, output, outCache, m) =>
      pure
        { output, outCache, metrics := m, currentCache := some cache, textMode := false,
          entriesRead }
    | .error _ =>
      let (output, outCache, m) ←
        invokeExpertReading expert prompt maxTokens p.memoryRetrieveK
      pure
        { output, outCache, metrics := m, currentCache := none, textMode := true, entriesRead }
  else
    let (output, outCache, m) ← invokeExpertReading expert prompt maxTokens p.memoryRetrieveK
    pure { output, outCache, metrics := m, currentCache := none, textMode := true }

/-- `RoutingPipeline.step`. -/
def RoutingPipeline.stepReading (p : RoutingPipeline σ) (prompt : String) (n : ℕ)
    (st : HandoffProgress) (item : String × ℕ) : ReadingRun σ μ HandoffProgress := do
  let expert ← liftExcept (p.getExpert item.1)
  let isLast := item.2 + 1 == n
  let (maxTokens, kwargs) := st.kwargs.popMaxTokens p.maxTokensPerExpert
  let inv ←
    (if item.2 = 0 then p.firstReading expert maxTokens prompt st.textMode
     else onFirst (handOver expert p.fallbackToText maxTokens st))
  onFirst (recordHandoff expert isLast p.writeIntermediateToMemory kwargs st inv)

/-- `RoutingPipeline.run`. -/
def RoutingPipeline.runReading (p : RoutingPipeline σ) (prompt : String) (kwargs : Kwargs) :
    ReadingRun σ μ PipelineResult := do
  let selected ← liftExcept (p.selectNames prompt)
  onFirst (writePrompt p.writeIntermediateToMemory prompt)
  let st ← selected.zipIdx.foldlM (p.stepReading prompt selected.length)
    { metrics := { cost := p.cost }, currentText := prompt
      textMode := p.handoff = .text, kwargs }
  let experts ← liftExcept (p.getExperts selected)
  pure
    { output := st.currentText
      metrics := st.metrics.finalize experts
      perExpert := st.perExpert
      selectedExperts := selected
      metadata :=
        { phase := 3, handoff := p.handoff.value
          router := some (p.router.name.getD "unknown")
          textModeFallback := some st.textMode, selectedExperts := some selected } }

/-- `AnyPipeline.run`. -/
def AnyPipeline.runReading (prompt : String) (kwargs : Kwargs) :
    AnyPipeline σ → ReadingRun σ μ PipelineResult
  | .cascade p => p.runReading prompt kwargs
  | .kvPass p => p.runReading prompt kwargs
  | .routing p => p.runReading prompt kwargs

/-- What the tally goes up by is what `_invoke_expert` puts in front of the prompt. -/
theorem invokeExpert_eq (e : Expert σ) (prompt : String) (maxTokens k : ℤ) :
    (invokeExpert e (some prompt) none maxTokens k :
      Run σ μ (String × Option KVCache × ExpertMetrics)) = (do
      let s ← get
      let entries := contextOf k prompt s.memory
      e.invoke (some (if entries.isEmpty then prompt else augment entries prompt)) none
        maxTokens) := by
  by_cases hk : 0 < k
  · simp only [invokeExpert, contextOf, hk, if_true, Option.map_some]
  · simp only [invokeExpert, contextOf, hk, if_false, Option.map_some, List.isEmpty_nil, if_true]

/-- Retrieving reads the state, and the entries in front of the prompt. -/
theorem retrieveContext_eq (k : ℤ) (prompt : String) :
    (retrieveContext k prompt : Run σ μ (String × ℤ)) = (do
      let s ← get
      let entries := contextOf k prompt s.memory
      if entries.isEmpty then pure (prompt, 0) else pure (augment entries prompt, k)) := rfl

end Reading

/-! ## What the parts count -/

section Parts

variable [CountedMemory μ]

/-- The number of entries that a request for `k` gets. -/
def readable (k : ℤ) (m : μ) : ℕ := if 0 < k then min k.toNat (CountedMemory.available m) else 0

/-- The number of entries that a request for `k` falls short of. -/
def shortfall (k : ℤ) (m : μ) : ℤ := if 0 < k then max (k - CountedMemory.available m) 0 else 0

/-- The number of entries that are read. -/
theorem length_contextOf (k : ℤ) (prompt : String) (m : μ) :
    (contextOf k prompt m).length = readable k m := by
  rw [contextOf, readable]
  split
  case isTrue hk => exact CountedMemory.length_retrieve prompt hk m
  case isFalse => rfl

/-- What is read and what is missing make up `k`. -/
theorem readable_add_shortfall (k : ℤ) (m : μ) :
    (readable k m : ℤ) + shortfall k m = if 0 < k then k else 0 := by
  rw [readable, shortfall]
  split <;> omega

/-- There is no more to read than `k`. -/
theorem shortfall_nonneg (k : ℤ) (m : μ) : 0 ≤ shortfall k m := by
  rw [shortfall]
  split <;> omega

/-- Nothing is missing if the memory has `k` entries to give. -/
theorem shortfall_eq_zero_iff {k : ℤ} {m : μ} :
    shortfall k m = 0 ↔ k ≤ 0 ∨ k ≤ CountedMemory.available m := by
  rw [shortfall]
  split <;> omega

/-- Less is missing in a memory that has more to give. -/
theorem shortfall_le {k : ℤ} {m m' : μ}
    (h : CountedMemory.available m ≤ CountedMemory.available m') :
    shortfall k m' ≤ shortfall k m := by
  rw [shortfall, shortfall]
  split <;> omega

/-- Nothing is read for `k ≤ 0`, or from a memory that has nothing to give. -/
theorem readable_eq_zero_iff {k : ℤ} {m : μ} :
    readable k m = 0 ↔ k ≤ 0 ∨ CountedMemory.available m = 0 := by
  rw [readable]
  split <;> omega

/-- What is counted for a request is what the request gets. -/
theorem requested_eq_readable_iff {k : ℤ} {m : μ} :
    (if readable k m = 0 then 0 else k) = (readable k m : ℤ) ↔
      readable k m = 0 ∨ k ≤ CountedMemory.available m := by
  rw [readable]
  split <;> split <;> omega

/-- What is counted for a request that is made twice is what both get. -/
theorem requested_eq_readable_twice_iff {k : ℤ} {m : μ} :
    (if readable k m = 0 then 0 else k) = ((readable k m + readable k m : ℕ) : ℤ) ↔
      readable k m = 0 ∨ k = 2 * CountedMemory.available m := by
  rw [readable]
  split <;> split <;> omega

/-- The entries in front of the prompt of one `invoke`. -/
theorem invokeExpertReading_tallies (e : Expert σ) (prompt : String) (maxTokens k : ℤ)
    (s : RunState σ μ) :
    Tallies (invokeExpertReading e prompt maxTokens k)
      (invokeExpert e (some prompt) none maxTokens k) s fun _ s' c =>
        c = readable k s.memory ∧ s'.memory = s.memory := by
  refine Tallies.get_tally
    (m := fun t : RunState σ μ => (contextOf k prompt t.memory).length) ?_
  refine Tallies.onFirst fun _ s' hx => ⟨?_, ?_⟩
  · rw [length_contextOf, Nat.add_zero]
  · exact (invokeExpert_preserves e _ _ _ _).of_eq_ok hx

/-- With the entries in front of it the prompt is counted as `k` entries. -/
theorem retrieveContextReading_tallies (k : ℤ) (prompt : String) (s : RunState σ μ) :
    Tallies (retrieveContextReading k prompt) (retrieveContext k prompt) s fun r s' c =>
      c = readable k s.memory ∧ s' = s ∧
        r.2 = (if readable k s.memory = 0 then 0 else k) ∧
        (readable k s.memory ≠ 0 → r.1 = augment (Memory.retrieve prompt k s.memory) prompt) := by
  refine Tallies.get_tally
    (m := fun t : RunState σ μ => (contextOf k prompt t.memory).length) ?_
  refine Tallies.onFirst fun r s' hx => ?_
  rw [retrieveContext_eq, get_bind_apply] at hx
  have hlength := length_contextOf k prompt s.memory
  rw [Nat.add_zero, hlength]
  -- With nothing to read the prompt stays as it is.
  by_cases hzero : readable k s.memory = 0
  · rw [hzero, List.length_eq_zero_iff] at hlength
    simp only [hlength, List.isEmpty_nil, if_true] at hx
    cases hx
    simp [hzero]
  · have hcontext : contextOf k prompt s.memory = Memory.retrieve prompt k s.memory := by
      rw [contextOf, if_pos]
      by_contra hk
      exact hzero (by rw [readable, if_neg hk])
    have hne : (contextOf k prompt s.memory).isEmpty = false := by
      rw [List.isEmpty_eq_false_iff, ← List.length_pos_iff, hlength]
      omega
    simp only [hne, Bool.false_eq_true, if_false] at hx
    cases hx
    rw [hcontext]
    simp [hzero]

/-- A write of a pipeline makes no entry unavailable. -/
theorem available_le_writeMemory {entry : MemoryEntry} (hconf : 0 ≤ entry.confidence)
    {s s' : RunState σ μ} {u : Unit} (h : writeMemory entry s = .ok u s') :
    CountedMemory.available s.memory ≤ CountedMemory.available s'.memory := by
  cases h
  exact CountedMemory.available_write_le hconf s.memory

/-- What a step writes can be retrieved. -/
theorem stepEntry_confidence_nonneg (e : Expert σ) (text : String) (isLast : Bool) :
    0 ≤ (stepEntry e text isLast).confidence := by
  cases isLast with
  | true => exact zero_le_one
  | false => exact (by norm_num : (0 : ℚ) ≤ 9 / 10)

/-- The memory once the prompt is in it, if writing is on. -/
def promptWritten (enabled : Bool) (prompt : String) (m : μ) : μ :=
  if enabled then (Memory.write (promptEntry prompt) m).2 else m

/-- Writing the prompt reads nothing. -/
theorem writePrompt_tallies (enabled : Bool) (prompt : String) (s : RunState σ μ) :
    Tallies (onFirst (writePrompt enabled prompt)) (writePrompt enabled prompt) s fun _ s' c =>
      s' = { s with memory := promptWritten enabled prompt s.memory } ∧ c = 0 := by
  refine Tallies.onFirst fun _ s' hx => ⟨?_, rfl⟩
  cases enabled <;> cases hx <;> rfl

end Parts

/-! ## Phase 1 -/

namespace CascadePipeline

variable [CountedMemory μ] (p : CascadePipeline σ)

/-- An iteration counts `k` entries and reads as many of them as it can. -/
theorem stepReading_tallies (st : Progress) (item : String × ℕ) (s : RunState σ μ) :
    Tallies (p.stepReading st item) (p.step st item) s fun st' s' c =>
      st'.metrics.memoryEntriesRead =
          st.metrics.memoryEntriesRead + c + shortfall p.memoryRetrieveK s.memory ∧
        CountedMemory.available s.memory ≤ CountedMemory.available s'.memory := by
  unfold stepReading step
  refine (Tallies.liftExcept (Φ := fun _ s' c => s' = s ∧ c = 0) fun _ _ => ⟨rfl, rfl⟩).bind ?_
  rintro expert s _ - ⟨rfl, rfl⟩
  refine (invokeExpertReading_tallies expert _ _ _ _).bind ?_
  rintro ⟨output, outCache, m⟩ s₁ _ - ⟨rfl, hmemory⟩
  refine Tallies.onFirst fun st' s' hx => ?_
  have hcounted : st'.metrics.memoryEntriesRead =
      st.metrics.memoryEntriesRead + if 0 < p.memoryRetrieveK then p.memoryRetrieveK else 0 := by
    cases hwrite : p.writeIntermediateToMemory <;> rw [hwrite] at hx <;> cases hx <;> split <;>
      simp [AggregateMetrics.add]
  have hkept : CountedMemory.available s₁.memory ≤ CountedMemory.available s'.memory := by
    cases hwrite : p.writeIntermediateToMemory <;> rw [hwrite] at hx <;> cases hx
    · exact Nat.le_refl _
    · exact available_le_writeMemory (stepEntry_confidence_nonneg ..) rfl
  rw [hmemory] at hkept
  have hsum := readable_add_shortfall p.memoryRetrieveK s.memory
  exact ⟨by omega, hkept⟩

/-- The loop counts too many by the shortfalls of its iterations, of which the first is the
largest: none is there unless the first is. -/
theorem loop_tallies (items : List (String × ℕ)) (st : Progress) (s : RunState σ μ) :
    Tallies (items.foldlM p.stepReading st) (items.foldlM p.step st) s fun st' _ c =>
      ∃ d, st'.metrics.memoryEntriesRead = st.metrics.memoryEntriesRead + c + d ∧ 0 ≤ d ∧
        (d = 0 ↔ items = [] ∨ shortfall p.memoryRetrieveK s.memory = 0) := by
  refine Tallies.foldlM (I := fun items (st : Progress) (s : RunState σ μ) st' _ c =>
    ∃ d, st'.metrics.memoryEntriesRead = st.metrics.memoryEntriesRead + c + d ∧ 0 ≤ d ∧
      (d = 0 ↔ items = [] ∨ shortfall p.memoryRetrieveK s.memory = 0)) ?_ ?_
    (fun item _ => fun st s => p.stepReading_tallies st item s) st s
  · exact fun st s => ⟨0, by simp⟩
  · rintro item items st s st₁ s₁ c st' s' c' ⟨hstep, hkept⟩ ⟨d, hrest, hd, hzero⟩
    have hfirst := shortfall_nonneg p.memoryRetrieveK s.memory
    have hle : shortfall p.memoryRetrieveK s₁.memory ≤ shortfall p.memoryRetrieveK s.memory :=
      shortfall_le hkept
    have hrest₁ := shortfall_nonneg p.memoryRetrieveK s₁.memory
    refine ⟨shortfall p.memoryRetrieveK s.memory + d, by push_cast; omega, by omega, ?_⟩
    simp only [List.cons_ne_nil, false_or]
    constructor
    · intro hsum
      omega
    · intro hs
      have hs₁ : shortfall p.memoryRetrieveK s₁.memory = 0 := by omega
      rw [hs, hzero.mpr (.inr hs₁), add_zero]

/-- The memory has as many entries for the first prompt as are asked for. -/
def CountsReads (prompt : String) (s : RunState σ μ) : Prop :=
  p.memoryRetrieveK ≤ 0 ∨ p.memoryRetrieveK ≤
    CountedMemory.available (promptWritten p.writeIntermediateToMemory prompt s.memory)

/-- The entries read in a run of phase 1. -/
theorem runReading_tallies (prompt : String) (kwargs : Kwargs) (s : RunState σ μ) :
    Tallies (p.runReading prompt kwargs) (p.run prompt kwargs) s fun result _ c =>
      result.metrics.memoryEntriesRead = c ↔ p.CountsReads prompt s := by
  unfold runReading run
  refine (writePrompt_tallies p.writeIntermediateToMemory prompt s).bind ?_
  rintro _ _ _ - ⟨rfl, rfl⟩
  refine (p.loop_tallies _ _ _).bind ?_
  rintro st s₂ c - ⟨d, hcount, hd, hzero⟩
  refine (Tallies.liftExcept (Φ := fun _ _ c => c = 0) fun _ _ => rfl).bind ?_
  rintro experts s₃ _ - rfl
  have hne : p.sequence.names.zipIdx ≠ [] := by simpa using p.sequence.names_ne
  rw [or_iff_right hne, shortfall_eq_zero_iff] at hzero
  refine Tallies.pure (Iff.trans ?_ hzero)
  show st.metrics.memoryEntriesRead = _ ↔ _
  rw [hcount]
  show (0 : ℤ) + c + d = _ ↔ _
  omega

end CascadePipeline

/-! ## The later steps of phases 2 and 3 -/

section Handoff

variable [CountedMemory μ]

/-- Only the first step of a run asks the memory. -/
theorem handOver_entriesRead {e : Expert σ} {fallback : Bool} {maxTokens : ℤ} {st : HandoffProgress}
    {inv : Invocation} {s s' : RunState σ μ}
    (h : handOver e fallback maxTokens st s = .ok inv s') : inv.entriesRead = 0 := by
  have hontext : ∀ {textMode currentCache s}, (do
      let (output, outCache, m) ← invokeExpert e (some st.currentText) none maxTokens 0
      pure { output, outCache, metrics := m, currentCache, textMode } : Run σ μ Invocation) s =
        .ok inv s' → inv.entriesRead = 0 := by
    intro textMode currentCache s h
    obtain ⟨_, _, -, hpure⟩ := bind_eq_ok.mp h
    cases hpure
    rfl
  unfold handOver at h
  cases htext : st.textMode <;> cases hcache : st.currentCache <;> rw [htext, hcache] at h
  case false.some cache =>
    obtain ⟨⟨output, outCache, m⟩, s₁, -, hrest⟩ := bind_eq_ok.mp h
    dsimp only at hrest
    split at hrest
    · cases hrest
      rfl
    · split at hrest
      · exact hontext hrest
      · cases hrest
  all_goals exact hontext h

/-- Recording a step adds the entries that the step says it read. -/
theorem recordHandoff_entriesRead {e : Expert σ} {isLast write : Bool} {kwargs : Kwargs}
    {st st' : HandoffProgress} {inv : Invocation} {s s' : RunState σ μ}
    (h : recordHandoff e isLast write kwargs st inv s = .ok st' s') :
    st'.metrics.memoryEntriesRead = st.metrics.memoryEntriesRead + inv.entriesRead := by
  cases write <;> cases h <;> rfl

omit [CountedMemory μ] in
/-- A loop of which only the first iteration reads entries counts what that iteration counts. -/
theorem handoff_tallies {step : HandoffProgress → String × ℕ → Run σ μ HandoffProgress}
    {stepReading : HandoffProgress → String × ℕ → ReadingRun σ μ HandoffProgress}
    {Φ : ℤ → ℕ → Prop} {names : List String} (hne : names ≠ []) {st : HandoffProgress}
    {s : RunState σ μ}
    (hfirst : Tallies (stepReading st (names.head hne, 0)) (step st (names.head hne, 0)) s
      fun st' _ c => ∃ n, st'.metrics.memoryEntriesRead = st.metrics.memoryEntriesRead + n ∧ Φ n c)
    (hlater : ∀ st item s, item.2 ≠ 0 → Tallies (stepReading st item) (step st item) s
      fun st' _ c => st'.metrics.memoryEntriesRead = st.metrics.memoryEntriesRead ∧ c = 0) :
    Tallies (names.zipIdx.foldlM stepReading st) (names.zipIdx.foldlM step st) s fun st' _ c =>
      ∃ n, st'.metrics.memoryEntriesRead = st.metrics.memoryEntriesRead + n ∧ Φ n c := by
  cases names with
  | nil => exact absurd rfl hne
  | cons name names =>
    rw [List.zipIdx_cons, List.foldlM_cons, List.foldlM_cons]
    refine hfirst.bind ?_
    rintro st₁ s₁ c - ⟨n, hread, hΦ⟩
    -- What holds of the later iterations: they read nothing and count nothing.
    have hrest := Tallies.foldlM
      (I := fun _ (st : HandoffProgress) (_ : RunState σ μ) st' (_ : RunState σ μ) c =>
        st'.metrics.memoryEntriesRead = st.metrics.memoryEntriesRead ∧ c = 0)
      (fun _ _ => ⟨rfl, rfl⟩)
      (fun h h' => ⟨h'.1.trans h.1, by rw [h.2, h'.2]⟩)
      (fun item (hitem : item ∈ names.zipIdx (0 + 1)) st s => hlater st item s (by
        have := List.le_snd_of_mem_zipIdx hitem
        omega)) st₁ s₁
    refine hrest.mono ?_
    rintro st' s' c' - ⟨hsame, rfl⟩
    exact ⟨n, hsame.trans hread, hΦ⟩

end Handoff

/-! ## Phase 2 -/

/-- The backend takes caches and makes one of the text. -/
def Expert.Encodes (e : Expert σ) (text : String) (w : σ) : Prop :=
  e.capabilities.supportsKVCache = true ∧ ∃ c w', e.backend.encode text w = .ok c w'

namespace KVPassPipeline

/-- A prompt is encoded if the backend makes a cache of it. -/
theorem encodePrompt_eq_ok {e : Expert σ} {prompt : String} {r : Option KVCache}
    {s s' : RunState σ μ} (h : encodePrompt e prompt s = .ok r s') :
    (r.isSome = true ↔ e.Encodes prompt s.world) ∧ s'.memory = s.memory := by
  unfold encodePrompt at h
  rw [Expert.Encodes]
  split at h
  case isTrue hkv =>
    obtain ⟨tried, s₁, htry, hrest⟩ := bind_eq_ok.mp h
    have htried := (Expert.attempt_call_eq_ok htry).1
    have hmemory := (e.call_preserves _ _).attempt.of_eq_ok htry
    cases hencode : e.backend.encode prompt s.world with
    | ok c w' =>
      rw [hencode, outcome_ok] at htried
      subst htried
      cases hrest
      exact ⟨by simp [hkv], hmemory⟩
    | error x w' =>
      rw [hencode, outcome_error] at htried
      subst htried
      cases hrest
      exact ⟨by simp, hmemory⟩
  case isFalse hkv =>
    cases h
    exact ⟨by simp [hkv], rfl⟩

variable [CountedMemory μ] (p : KVPassPipeline σ)

/-- The entries read in the first step of phase 2. -/
theorem firstReading_tallies (e : Expert σ) (maxTokens : ℤ) (prompt : String) (s : RunState σ μ) :
    Tallies (p.firstReading e maxTokens prompt) (p.first e maxTokens prompt) s fun inv _ c =>
      inv.entriesRead = c ↔ p.memoryRetrieveK ≤ 0 ∨ CountedMemory.available s.memory = 0 ∨
        p.memoryRetrieveK ≤ CountedMemory.available s.memory ∨ ¬e.Encodes prompt s.world := by
  unfold firstReading first
  refine (Tallies.onFirst (Φ := fun r s' c => ((r.isSome = true ↔ e.Encodes prompt s.world) ∧
    s'.memory = s.memory) ∧ c = 0) fun r s' hx => ⟨encodePrompt_eq_ok hx, rfl⟩).bind ?_
  rintro r s₁ _ - ⟨⟨hencodes, hmemory⟩, rfl⟩
  -- If the attempt raises, the entries are read once more for the text.
  cases r with
  | none =>
    refine Tallies.onFirst fun inv s' hx => ?_
    obtain ⟨_, _, -, hpure⟩ := bind_eq_ok.mp hx
    cases hpure
    have hfails : ¬e.Encodes prompt s.world := fun h => by simpa using hencodes.mpr h
    simp [hfails]
  | some cache =>
    refine (retrieveContextReading_tallies p.memoryRetrieveK prompt s₁).bind ?_
    rintro ⟨augmented, entriesRead⟩ _ c - ⟨rfl, rfl, hread, -⟩
    refine Tallies.onFirst fun inv s' hx => ?_
    obtain ⟨current, s₂, -, hrest⟩ := bind_eq_ok.mp hx
    obtain ⟨_, _, -, hpure⟩ := bind_eq_ok.mp hrest
    cases hpure
    have hdoes : e.Encodes prompt s.world := hencodes.mp rfl
    rw [← hmemory, or_iff_left (not_not_intro hdoes), ← or_assoc, ← readable_eq_zero_iff,
      ← requested_eq_readable_iff, ← hread]
    simp

/-- The entries read in its first iteration. -/
theorem stepReading_tallies_first (prompt name : String) (st : HandoffProgress)
    (s : RunState σ μ) :
    Tallies (p.stepReading prompt st (name, 0)) (p.step prompt st (name, 0)) s fun st' _ c =>
      ∃ n, st'.metrics.memoryEntriesRead = st.metrics.memoryEntriesRead + n ∧
        (n = c ↔ p.memoryRetrieveK ≤ 0 ∨ CountedMemory.available s.memory = 0 ∨
          p.memoryRetrieveK ≤ CountedMemory.available s.memory ∨
          ∀ e, p.getExpert name = .ok e → ¬e.Encodes prompt s.world) := by
  unfold stepReading step
  refine (Tallies.liftExcept (Φ := fun e s' c => p.getExpert name = .ok e ∧ s' = s ∧ c = 0)
    fun e h => ⟨h, rfl, rfl⟩).bind ?_
  rintro e s _ - ⟨hexpert, rfl, rfl⟩
  refine (p.firstReading_tallies e _ prompt s).bind ?_
  rintro inv s₁ c - hcount
  refine Tallies.onFirst fun st' s' hx => ⟨_, recordHandoff_entriesRead hx, ?_⟩
  simpa [hexpert] using hcount

/-- Later iterations read nothing. -/
theorem stepReading_tallies_later (prompt : String) (st : HandoffProgress) (item : String × ℕ)
    (s : RunState σ μ) (hitem : item.2 ≠ 0) :
    Tallies (p.stepReading prompt st item) (p.step prompt st item) s fun st' _ c =>
      st'.metrics.memoryEntriesRead = st.metrics.memoryEntriesRead ∧ c = 0 := by
  unfold stepReading step
  refine (Tallies.liftExcept (Φ := fun _ _ c => c = 0) fun _ _ => rfl).bind ?_
  rintro e s _ - rfl
  simp only [hitem, if_false]
  refine (Tallies.onFirst (Φ := fun inv _ c => inv.entriesRead = 0 ∧ c = 0)
    fun inv s' h => ⟨handOver_entriesRead h, rfl⟩).bind ?_
  rintro inv s₁ _ - ⟨hread, rfl⟩
  refine Tallies.onFirst fun st' s' hx => ⟨?_, rfl⟩
  rw [recordHandoff_entriesRead hx, hread, add_zero]

/-- The memory has as many entries for the prompt as are asked for, or none, or the first expert
makes no cache of the prompt, so that the memory is not asked. -/
def CountsReads (prompt : String) (s : RunState σ μ) : Prop :=
  let available :=
    CountedMemory.available (promptWritten p.writeIntermediateToMemory prompt s.memory)
  p.memoryRetrieveK ≤ 0 ∨ available = 0 ∨ p.memoryRetrieveK ≤ available ∨
    ∀ e, p.getExpert (p.sequence.names.head p.sequence.names_ne) = .ok e →
      ¬e.Encodes prompt s.world

/-- The entries read in a run of phase 2. -/
theorem runReading_tallies (prompt : String) (kwargs : Kwargs) (s : RunState σ μ) :
    Tallies (p.runReading prompt kwargs) (p.run prompt kwargs) s fun result _ c =>
      result.metrics.memoryEntriesRead = c ↔ p.CountsReads prompt s := by
  unfold runReading run
  refine (writePrompt_tallies p.writeIntermediateToMemory prompt s).bind ?_
  rintro _ _ _ - ⟨rfl, rfl⟩
  refine (handoff_tallies p.sequence.names_ne (p.stepReading_tallies_first prompt _ _ _)
    (p.stepReading_tallies_later prompt)).bind ?_
  rintro st s₂ c - ⟨n, hread, hcount⟩
  refine (Tallies.liftExcept (Φ := fun _ _ c => c = 0) fun _ _ => rfl).bind ?_
  rintro experts s₃ _ - rfl
  refine Tallies.pure (Iff.trans ?_ hcount)
  show st.metrics.memoryEntriesRead = _ ↔ _
  rw [hread]
  show (0 : ℤ) + n = _ ↔ _
  simp

end KVPassPipeline

/-! ## Phase 3 -/

/-- The backend makes a cache of the text and comes by an output from it. -/
def Expert.AnswersCached (e : Expert σ) (text : String) (maxTokens : ℤ) (w : σ) : Prop :=
  ∃ c w₁ output usedKV succeeded w₂, e.backend.encode text w = .ok c w₁ ∧
    e.Produces none (some c) maxTokens w₁ output usedKV succeeded w₂

/-- The `try` of the first step ends in a value exactly if the backend answers. -/
theorem Expert.attempt_answer_eq_ok {e : Expert σ} {text : String} {maxTokens : ℤ}
    {r : Except Exn (KVCache × String × Option KVCache × ExpertMetrics)} {s s' : RunState σ μ}
    (h : attempt (do
      let cache ← e.encode text
      let answer ← e.invoke none (some cache) maxTokens
      pure (cache, answer)) s = .ok r s') :
    ((∃ answer, r = .ok answer) ↔ e.AnswersCached text maxTokens s.world) ∧
      s'.memory = s.memory := by
  refine ⟨?_, (Preserves.attempt ((e.call_preserves _ _).bind fun _ =>
    (e.invoke_preserves _ _ _).bind fun _ => Preserves.pure _)).of_eq_ok h⟩
  cases h
  constructor
  · rintro ⟨answer, hanswer⟩
    obtain ⟨c, s₁, hencode, hrest⟩ := bind_eq_ok.mp (eq_ok_of_outcome hanswer)
    obtain ⟨_, s₂, hinvoke, -⟩ := bind_eq_ok.mp hrest
    obtain ⟨output, usedKV, succeeded, w₂, hproduces⟩ := produces_of_invoke_eq_ok hinvoke
    exact ⟨c, s₁.world, output, usedKV, succeeded, w₂, call_eq_ok hencode, hproduces⟩
  · rintro ⟨c, w₁, output, usedKV, succeeded, w₂, hencode, hproduces⟩
    -- both calls return in the world that the state has
    have hgives : Gives RunState.world (do
        let cache ← e.encode text
        let answer ← e.invoke none (some cache) maxTokens
        pure (cache, answer) : Run σ μ _) s.world fun _ _ => True := by
      refine (e.call_gives (.encode text) hencode).bind ?_
      rintro _ _ ⟨rfl, rfl⟩
      exact (invoke_gives_of_produces hproduces).bind fun _ _ _ => Gives.pure trivial
    obtain ⟨answer, s', hrun, -⟩ := hgives s rfl
    exact ⟨answer, by rw [hrun, outcome_ok]⟩

namespace RoutingPipeline

variable [CountedMemory μ] (p : RoutingPipeline σ)

/-- What the first step of a routed run counts is what it reads: the memory has nothing for it, or
the step hands a cache over and either answers from it with all the entries asked for, or asks for
the entries once more and gets half of their number each time. -/
def FirstCounts (e : Expert σ) (maxTokens : ℤ) (prompt : String) (textMode : Bool) (m : μ) (w : σ) :
    Prop :=
  let available := CountedMemory.available m
  p.memoryRetrieveK ≤ 0 ∨ available = 0 ∨
    textMode = false ∧ e.capabilities.supportsKVCache = true ∧
      (e.AnswersCached (augment (Memory.retrieve prompt p.memoryRetrieveK m) prompt) maxTokens w →
        p.memoryRetrieveK ≤ available) ∧
      (¬e.AnswersCached (augment (Memory.retrieve prompt p.memoryRetrieveK m) prompt) maxTokens w →
        p.memoryRetrieveK = 2 * available)

/-- The first step of phase 3 in KV mode counts what it reads. -/
theorem firstCounts_iff {e : Expert σ} {maxTokens : ℤ} {prompt : String} {textMode : Bool} {m : μ}
    {w : σ} (hkv : textMode = false ∧ e.capabilities.supportsKVCache = true) :
    p.FirstCounts e maxTokens prompt textMode m w ↔ readable p.memoryRetrieveK m = 0 ∨
      (e.AnswersCached (augment (Memory.retrieve prompt p.memoryRetrieveK m) prompt) maxTokens w →
        p.memoryRetrieveK ≤ CountedMemory.available m) ∧
      (¬e.AnswersCached (augment (Memory.retrieve prompt p.memoryRetrieveK m) prompt) maxTokens w →
        p.memoryRetrieveK = 2 * CountedMemory.available m) := by
  rw [FirstCounts, readable_eq_zero_iff]
  tauto

/-- In text mode it counts nothing. -/
theorem firstCounts_of_text {e : Expert σ} {maxTokens : ℤ} {prompt : String} {textMode : Bool}
    {m : μ} {w : σ} (htext : ¬(textMode = false ∧ e.capabilities.supportsKVCache = true)) :
    p.FirstCounts e maxTokens prompt textMode m w ↔ readable p.memoryRetrieveK m = 0 := by
  rw [FirstCounts, readable_eq_zero_iff]
  tauto

section

variable {e : Expert σ} {maxTokens entriesRead : ℤ} {prompt augmented : String} {textMode : Bool}
  {m : μ} {w : σ} (hkv : textMode = false ∧ e.capabilities.supportsKVCache = true)
  (hread : entriesRead = if readable p.memoryRetrieveK m = 0 then 0 else p.memoryRetrieveK)
  (haugmented : readable p.memoryRetrieveK m ≠ 0 →
    augmented = augment (Memory.retrieve prompt p.memoryRetrieveK m) prompt)

include hkv hread haugmented

/-- A step that answers from the cache has asked once. -/
theorem counts_once_iff (hdoes : e.AnswersCached augmented maxTokens w) :
    entriesRead = (readable p.memoryRetrieveK m : ℤ) ↔
      p.FirstCounts e maxTokens prompt textMode m w := by
  rw [p.firstCounts_iff hkv, hread, requested_eq_readable_iff]
  refine or_congr_right' fun hzero => ?_
  rw [← haugmented hzero]
  simp [hdoes]

/-- A step that does not has asked twice. -/
theorem counts_twice_iff (hnot : ¬e.AnswersCached augmented maxTokens w) :
    entriesRead = ((readable p.memoryRetrieveK m + readable p.memoryRetrieveK m : ℕ) : ℤ) ↔
      p.FirstCounts e maxTokens prompt textMode m w := by
  rw [p.firstCounts_iff hkv, hread, requested_eq_readable_twice_iff]
  refine or_congr_right' fun hzero => ?_
  rw [← haugmented hzero]
  simp [hnot]

end

/-- The entries read in the first step of phase 3. -/
theorem firstReading_tallies (e : Expert σ) (maxTokens : ℤ) (prompt : String) (textMode : Bool)
    (s : RunState σ μ) :
    Tallies (p.firstReading e maxTokens prompt textMode) (p.first e maxTokens prompt textMode) s
      fun inv _ c => inv.entriesRead = c ↔
        p.FirstCounts e maxTokens prompt textMode s.memory s.world := by
  unfold firstReading first
  split
  case isFalse htext =>
    refine (invokeExpertReading_tallies e prompt maxTokens p.memoryRetrieveK s).bind ?_
    rintro ⟨output, outCache, m⟩ s₁ c - ⟨rfl, -⟩
    refine Tallies.pure ?_
    rw [p.firstCounts_of_text (by simpa using htext)]
    simp [eq_comm]
  case isTrue hkv =>
    have hkv' : textMode = false ∧ e.capabilities.supportsKVCache = true := by simpa using hkv
    refine (retrieveContextReading_tallies p.memoryRetrieveK prompt s).bind ?_
    rintro ⟨augmented, entriesRead⟩ s c - ⟨rfl, rfl, hread, haugmented⟩
    dsimp only at hread haugmented
    refine (Tallies.onFirst (Φ := fun r s' c =>
      (((∃ answer, r = .ok answer) ↔ e.AnswersCached augmented maxTokens s.world) ∧
        s'.memory = s.memory) ∧ c = 0)
      fun r s' hx => ⟨Expert.attempt_answer_eq_ok hx, rfl⟩).bind ?_
    rintro r s₁ _ - ⟨⟨hanswers, hmemory⟩, rfl⟩
    cases r with
    | ok answer =>
      refine Tallies.pure ?_
      have hone := p.counts_once_iff hkv' hread haugmented (hanswers.mp ⟨answer, rfl⟩)
      simpa using hone
    | error x =>
      refine (invokeExpertReading_tallies e prompt maxTokens p.memoryRetrieveK s₁).bind ?_
      rintro ⟨output, outCache, m⟩ s₂ c - ⟨rfl, -⟩
      refine Tallies.pure ?_
      have hnot : ¬e.AnswersCached augmented maxTokens s.world := fun h => by
        simpa using hanswers.mpr h
      have htwo := p.counts_twice_iff hkv' hread haugmented hnot
      rw [hmemory]
      simpa using htwo

/-- The entries read in its first iteration. -/
theorem stepReading_tallies_first (prompt name : String) (n : ℕ) (st : HandoffProgress)
    (s : RunState σ μ) :
    Tallies (p.stepReading prompt n st (name, 0)) (p.step prompt n st (name, 0)) s fun st' _ c =>
      ∃ r, st'.metrics.memoryEntriesRead = st.metrics.memoryEntriesRead + r ∧
        (r = c ↔ ∀ e, p.getExpert name = .ok e →
          p.FirstCounts e (st.kwargs.popMaxTokens p.maxTokensPerExpert).1 prompt st.textMode
            s.memory s.world) := by
  unfold stepReading step
  refine (Tallies.liftExcept (Φ := fun e s' c => p.getExpert name = .ok e ∧ s' = s ∧ c = 0)
    fun e h => ⟨h, rfl, rfl⟩).bind ?_
  rintro e s _ - ⟨hexpert, rfl, rfl⟩
  refine (p.firstReading_tallies e _ prompt st.textMode s).bind ?_
  rintro inv s₁ c - hcount
  refine Tallies.onFirst fun st' s' hx => ⟨_, recordHandoff_entriesRead hx, ?_⟩
  rw [hexpert, Nat.zero_add, Nat.add_zero]
  constructor
  · rintro h _ ⟨⟩
    exact hcount.mp h
  · exact fun h => hcount.mpr (h e rfl)

/-- Later iterations read nothing. -/
theorem stepReading_tallies_later (prompt : String) (n : ℕ) (st : HandoffProgress)
    (item : String × ℕ) (s : RunState σ μ) (hitem : item.2 ≠ 0) :
    Tallies (p.stepReading prompt n st item) (p.step prompt n st item) s fun st' _ c =>
      st'.metrics.memoryEntriesRead = st.metrics.memoryEntriesRead ∧ c = 0 := by
  unfold stepReading step
  refine (Tallies.liftExcept (Φ := fun _ _ c => c = 0) fun _ _ => rfl).bind ?_
  rintro e s _ - rfl
  simp only [hitem, if_false]
  refine (Tallies.onFirst (Φ := fun inv _ c => inv.entriesRead = 0 ∧ c = 0)
    fun inv s' h => ⟨handOver_entriesRead h, rfl⟩).bind ?_
  rintro inv s₁ _ - ⟨hread, rfl⟩
  refine Tallies.onFirst fun st' s' hx => ⟨?_, rfl⟩
  rw [recordHandoff_entriesRead hx, hread, add_zero]

/-- Somebody is always selected. -/
theorem selectNames_ne_nil {prompt : String} {names : List String}
    (h : p.selectNames prompt = .ok names) : names ≠ [] := by
  unfold selectNames at h
  obtain ⟨selected, -, hnames⟩ := except_bind_eq_ok.mp h
  split at hnames
  · split at hnames
    · cases hnames
      simp
    · cases hnames
      have hne := p.experts_ne
      cases hexperts : p.experts with
      | nil => exact absurd hexperts hne
      | cons e es => simp
  · next hempty =>
    cases hnames
    simpa using hempty

/-- The first step of the run counts what it reads. -/
def CountsReads (prompt : String) (kwargs : Kwargs) (s : RunState σ μ) : Prop :=
  ∀ name rest e, p.selectNames prompt = .ok (name :: rest) → p.getExpert name = .ok e →
    p.FirstCounts e (kwargs.popMaxTokens p.maxTokensPerExpert).1 prompt (p.handoff = .text)
      (promptWritten p.writeIntermediateToMemory prompt s.memory) s.world

/-- The entries read in a run of phase 3. -/
theorem runReading_tallies (prompt : String) (kwargs : Kwargs) (s : RunState σ μ) :
    Tallies (p.runReading prompt kwargs) (p.run prompt kwargs) s fun result _ c =>
      result.metrics.memoryEntriesRead = c ↔ p.CountsReads prompt kwargs s := by
  unfold runReading run
  refine (Tallies.liftExcept (Φ := fun names s' c =>
    p.selectNames prompt = .ok names ∧ s' = s ∧ c = 0) fun e h => ⟨h, rfl, rfl⟩).bind ?_
  rintro names s _ - ⟨hselect, rfl, rfl⟩
  refine (writePrompt_tallies p.writeIntermediateToMemory prompt s).bind ?_
  rintro _ _ _ - ⟨rfl, rfl⟩
  refine (handoff_tallies (p.selectNames_ne_nil hselect)
    (p.stepReading_tallies_first prompt _ names.length _ _)
    (p.stepReading_tallies_later prompt names.length)).bind ?_
  rintro st s₂ c - ⟨n, hread, hcount⟩
  refine (Tallies.liftExcept (Φ := fun _ _ c => c = 0) fun _ _ => rfl).bind ?_
  rintro experts s₃ _ - rfl
  refine Tallies.pure (Iff.trans ?_ (hcount.trans ?_))
  · show st.metrics.memoryEntriesRead = _ ↔ _
    rw [hread]
    show (0 : ℤ) + n = _ ↔ _
    simp
  · cases names with
    | nil => exact absurd rfl (p.selectNames_ne_nil hselect)
    | cons name rest =>
      -- the first expert is the one that `CountsReads` asks about
      rw [CountsReads, hselect]
      constructor
      · rintro h _ _ e ⟨⟩ hexpert
        exact h e hexpert
      · exact fun h e hexpert => h name rest e rfl hexpert

end RoutingPipeline

/-! ## Any run -/

namespace AnyPipeline

variable [CountedMemory μ]

/-- What the run counts as read is what it reads. -/
def CountsReads (prompt : String) (kwargs : Kwargs) (s : RunState σ μ) : AnyPipeline σ → Prop
  | .cascade p => p.CountsReads prompt s
  | .kvPass p => p.CountsReads prompt s
  | .routing p => p.CountsReads prompt kwargs s

/-- A run that returns has put a number of entries in front of its prompts, and
`memory_entries_read` is that number if and only if what was asked for was there, as `CountsReads`
says of each phase. -/
theorem entriesRead_eq_iff (p : AnyPipeline σ) (prompt : String) (kwargs : Kwargs)
    (s s' : RunState σ μ) (result : PipelineResult)
    (hrun : p.run prompt kwargs s = .ok result s') :
    ∃ n : ℕ, p.runReading prompt kwargs (s, 0) = .ok result (s', n) ∧
      (result.metrics.memoryEntriesRead = n ↔ p.CountsReads prompt kwargs s) := by
  have htallies : Tallies (p.runReading prompt kwargs) (p.run prompt kwargs) s fun result _ c =>
      result.metrics.memoryEntriesRead = c ↔ p.CountsReads prompt kwargs s := by
    cases p with
    | cascade p => exact p.runReading_tallies prompt kwargs s
    | kvPass p => exact p.runReading_tallies prompt kwargs s
    | routing p => exact p.runReading_tallies prompt kwargs s
  obtain ⟨c, hreading, hcount⟩ := htallies 0 result s' hrun
  rw [Nat.zero_add] at hreading
  exact ⟨c, hreading, hcount⟩

/-- A cascade over an empty store, with the settings a pipeline has by default. -/
def defaultCascade : AnyPipeline Unit :=
  .cascade { duoCascade {} {} with writeIntermediateToMemory := true, memoryRetrieveK := 2 }

/-- A store with one entry, from before the run. -/
def usedStore [Hashlib] : RunState Unit InMemoryMemory :=
  { emptyStore with memory := (InMemoryMemory.write { text := "q" } emptyStore.memory).2 }

/-- With one entry in the store from before, the two that are asked for are there. -/
theorem entriesRead_eq_used :
    let _ := Hashlib.checksum
    ∃ result s' n, defaultCascade.run "p" {} usedStore = .ok result s' ∧
      defaultCascade.runReading "p" {} (usedStore, 0) = .ok result (s', n) ∧
      0 < n ∧ result.metrics.memoryEntriesRead = n := by
  intro _
  obtain ⟨result, s', hrun, hread⟩ := Returned.exists
    (P := fun result _ => 0 < result.metrics.memoryEntriesRead)
    (r := defaultCascade.run "p" {} usedStore) (by decide +kernel)
  obtain ⟨n, hreading, hcount⟩ :=
    entriesRead_eq_iff defaultCascade "p" {} usedStore s' result hrun
  have hn : result.metrics.memoryEntriesRead = n := hcount.mpr (.inr (by decide))
  exact ⟨result, s', n, hrun, hreading, by omega, hn⟩

/-- The first prompt finds nothing but itself in memory, and two entries are counted. -/
theorem entriesRead_overcounted :
    let _ := Hashlib.checksum
    ∃ result s' n, defaultCascade.run "p" {} emptyStore = .ok result s' ∧
      defaultCascade.runReading "p" {} (emptyStore, 0) = .ok result (s', n) ∧
      result.metrics.memoryEntriesRead = 6 ∧ n = 5 := by
  intro _
  obtain ⟨result, s', hrun, hread⟩ := Returned.exists
    (P := fun result _ => result.metrics.memoryEntriesRead = 6)
    (r := defaultCascade.run "p" {} emptyStore) (by decide +kernel)
  obtain ⟨result', s'', hreading, hn⟩ := Returned.exists (P := fun _ t => t.2 = 5)
    (r := defaultCascade.runReading "p" {} (emptyStore, 0)) (by decide +kernel)
  obtain ⟨c, hsame, -⟩ := CascadePipeline.runReading_tallies _ "p" {} emptyStore 0 result s' hrun
  rw [Nat.zero_add] at hsame
  cases hsame.symm.trans hreading
  exact ⟨result, s', c, hrun, hsame, hread, hn⟩

end AnyPipeline

end Chen
