import Chen.Core.MemoryRows
import Chen.Phases.Metering

/-!
# What a routed run leaves in memory

A step of a routed run writes the text it was handed: the text behind the cache at hand, or else the
previous output. Its own output becomes the text of the next step, and that of the last step is
never written. The memory after a run is computed from these texts, and compared with the outputs.
-/

namespace Chen

open Effect

variable {σ μ : Type}

/-! ## Programs that leave the memory alone -/

section Preserves

theorem perfCounter_preserves :
    Preserves RunState.memory (perfCounter : Run σ μ ℚ) := fun _ => rfl

/-- A timed program does what the program does. -/
theorem timed_preserves {α : Type} {x : Run σ μ α} (hx : Preserves RunState.memory x) :
    Preserves RunState.memory (timed x) :=
  perfCounter_preserves.bind fun _ => hx.bind fun _ => perfCounter_preserves.bind fun _ =>
    Preserves.pure _

namespace Expert

variable (e : Expert σ)

/-- A backend call leaves the memory alone. -/
theorem call_preserves {α : Type} (op : Except Exn α → Op) (act : EStateM Exn σ α) :
    Preserves RunState.memory (e.call op act : Run σ μ α) := by
  intro s
  rw [call]
  cases act s.world <;> rfl

/-- Caching an answer leaves the memory alone. -/
theorem outputCache_preserves (text output : String) :
    Preserves RunState.memory (e.outputCache text output : Run σ μ (Option KVCache)) := by
  unfold outputCache
  split
  · refine (e.call_preserves _ _).attempt.bind fun r => ?_
    cases r with
    | ok cache => exact Preserves.pure _
    | error x => exact Preserves.pure _
  · exact Preserves.pure _

/-- So does counting tokens. -/
theorem meterTokens_preserves (text output : String) :
    Preserves RunState.memory (e.meterTokens text output : Run σ μ (ℤ × ℤ)) := by
  unfold meterTokens
  cases e.backend.countTokens with
  | none => exact Preserves.pure _
  | some count =>
    refine Preserves.bind (Preserves.attempt ?_) fun r => ?_
    · exact (e.call_preserves _ _).bind fun _ => (e.call_preserves _ _).bind fun _ =>
        Preserves.pure _
    · cases r with
      | ok toks => exact Preserves.pure _
      | error x => exact Preserves.pure _

/-- So does the end of an `invoke`. -/
theorem conclude_preserves (text output : String) (latencyMs cacheTransferMs : ℚ)
    (usedKV succeeded : Bool) :
    Preserves RunState.memory (e.conclude text output latencyMs cacheTransferMs usedKV succeeded :
      Run σ μ (String × Option KVCache × ExpertMetrics)) :=
  (e.outputCache_preserves text output).bind fun _ =>
    (e.meterTokens_preserves text output).bind fun _ => Preserves.pure _

/-- So does an `invoke` on a text. -/
theorem invokeText_preserves (text : String) (maxTokens : ℤ) :
    Preserves RunState.memory
      (e.invokeText text maxTokens : Run σ μ (String × Option KVCache × ExpertMetrics)) :=
  (timed_preserves (e.call_preserves _ _)).bind fun _ => e.conclude_preserves _ _ _ _ _ _

/-- So does every `invoke`. -/
theorem invoke_preserves (prompt : Option String) (cache : Option KVCache) (maxTokens : ℤ) :
    Preserves RunState.memory
      (e.invoke prompt cache maxTokens : Run σ μ (String × Option KVCache × ExpertMetrics)) := by
  cases cache with
  | none =>
    cases prompt with
    | none => exact Preserves.throw _
    | some text => exact e.invokeText_preserves text maxTokens
  | some cache =>
    rw [invoke_cache]
    split
    · refine (timed_preserves (e.call_preserves _ _).attempt).bind ?_
      rintro ⟨transferred, ms⟩
      cases transferred with
      | ok cache' =>
        exact (timed_preserves (e.call_preserves _ _)).bind fun _ =>
          e.conclude_preserves _ _ _ _ _ _
      | error x =>
        exact (timed_preserves (e.call_preserves _ _)).bind fun _ =>
          e.conclude_preserves _ _ _ _ _ _
    · exact e.invokeText_preserves cache.sourceText maxTokens

end Expert

variable [Memory μ]

/-- Entries are read for an `invoke`, and none are written. -/
theorem invokeExpert_preserves (e : Expert σ) (prompt : Option String) (cache : Option KVCache)
    (maxTokens k : ℤ) :
    Preserves RunState.memory (invokeExpert e prompt cache maxTokens k :
      Run σ μ (String × Option KVCache × ExpertMetrics)) :=
  Preserves.get.bind fun _ => e.invoke_preserves _ _ _

/-- Retrieving leaves the memory as it is. -/
theorem retrieveContext_preserves (k : ℤ) (prompt : String) :
    Preserves RunState.memory (retrieveContext k prompt : Run σ μ (String × ℤ)) := by
  refine Preserves.get.bind fun s => ?_
  by_cases hempty : (if 0 < k then Memory.retrieve prompt k s.memory else []).isEmpty
  · simp only [hempty, if_true]
    exact Preserves.pure _
  · simp only [hempty, Bool.false_eq_true, if_false]
    exact Preserves.pure _

/-- A step behind the first writes nothing by itself. -/
theorem handOver_preserves (e : Expert σ) (fallback : Bool) (maxTokens : ℤ)
    (st : HandoffProgress) :
    Preserves RunState.memory (handOver e fallback maxTokens st : Run σ μ Invocation) := by
  unfold handOver
  split
  · refine (e.invoke_preserves _ _ _).bind ?_
    rintro ⟨output, outCache, m⟩
    dsimp only
    split
    · exact Preserves.pure _
    · split
      · exact (invokeExpert_preserves _ _ _ _ _).bind fun _ => Preserves.pure _
      · exact Preserves.throw _
  · exact (invokeExpert_preserves _ _ _ _ _).bind fun _ => Preserves.pure _

/-- Nor does the first step of phase 3. -/
theorem RoutingPipeline.first_preserves (p : RoutingPipeline σ) (e : Expert σ) (maxTokens : ℤ)
    (prompt : String) (textMode : Bool) :
    Preserves RunState.memory (p.first e maxTokens prompt textMode : Run σ μ Invocation) := by
  unfold first
  split
  · refine (retrieveContext_preserves _ _).bind ?_
    rintro ⟨augmented, entriesRead⟩
    refine Preserves.bind (Preserves.attempt ?_) fun tried => ?_
    · exact (e.call_preserves _ _).bind fun _ => (e.invoke_preserves _ _ _).bind fun _ =>
        Preserves.pure _
    · cases tried with
      | ok answer => exact Preserves.pure _
      | error x => exact (invokeExpert_preserves _ _ _ _ _).bind fun _ => Preserves.pure _
  · exact (invokeExpert_preserves _ _ _ _ _).bind fun _ => Preserves.pure _

end Preserves

/-! ## A run step by step -/

/-- An expert is found under its own name. -/
theorem Pipeline.name_of_getExpert (p : Pipeline σ) {name : String} {e : Expert σ}
    (h : p.getExpert name = .ok e) : e.name = name := by
  unfold getExpert at h
  cases hfind : p.find name with
  | none =>
    rw [hfind] at h
    cases h
  | some e' =>
    rw [hfind] at h
    cases h
    exact name_of_find hfind

/-- What one step of a run was about: the expert, the text it was handed, and the output it
produced. -/
structure RoutedStep (σ : Type) where
  expert : Expert σ
  given : String
  output : String
  isLast : Bool

/-- What the step writes. -/
def RoutedStep.entry (h : RoutedStep σ) : MemoryEntry := stepEntry h.expert h.given h.isLast

namespace RoutingPipeline

variable [Memory μ] (p : RoutingPipeline σ) (prompt : String) (kwargs : Kwargs)

/-- The loop over `n` selected names, from one state to another, with what each step was about. -/
inductive Steps (n : ℕ) : HandoffProgress → RunState σ μ → List (String × ℕ) →
    List (RoutedStep σ) → HandoffProgress → RunState σ μ → Prop
  | nil {st : HandoffProgress} {s : RunState σ μ} : Steps n st s [] [] st s
  | cons {st st' st'' : HandoffProgress} {s s₁ s₂ s'' : RunState σ μ} {item : String × ℕ}
      {items : List (String × ℕ)} {trail : List (RoutedStep σ)} {expert : Expert σ}
      {inv : Invocation}
      (hexpert : p.getExpert item.1 = .ok expert)
      (hinvoke : (if item.2 = 0 then
          p.first expert (st.kwargs.popMaxTokens p.maxTokensPerExpert).1 prompt st.textMode
        else
          handOver expert p.fallbackToText (st.kwargs.popMaxTokens p.maxTokensPerExpert).1 st) s =
        .ok inv s₁)
      (hrecord : recordHandoff expert (item.2 + 1 == n) p.writeIntermediateToMemory
        (st.kwargs.popMaxTokens p.maxTokensPerExpert).2 st inv s₁ = .ok st' s₂)
      (hrest : Steps n st' s₂ items trail st'' s'') :
      Steps n st s (item :: items)
        ({ expert, given := (inv.currentCache.map (·.sourceText)).getD st.currentText
           output := inv.output, isLast := item.2 + 1 == n } :: trail) st'' s''

/-- A run that went through these steps. -/
structure Trail (s : RunState σ μ) (names : List String) (trail : List (RoutedStep σ))
    (output : String) (s' : RunState σ μ) : Prop where
  intro ::
  selected : p.selectNames prompt = .ok names
  steps : ∃ s₁ st, writePrompt p.writeIntermediateToMemory prompt s = .ok () s₁ ∧
    p.Steps prompt names.length
      { metrics := { cost := p.cost }, currentText := prompt
        textMode := p.handoff = .text, kwargs } s₁ names.zipIdx trail st s' ∧
    output = st.currentText

variable {p prompt kwargs} {n : ℕ} {st st' : HandoffProgress} {s s' : RunState σ μ}
  {items : List (String × ℕ)} {trail : List (RoutedStep σ)}

/-- A loop that returned has gone through its steps. -/
theorem exists_steps (h : items.foldlM (p.step prompt n) st s = .ok st' s') :
    ∃ trail, p.Steps prompt n st s items trail st' s' := by
  induction items generalizing st s with
  | nil =>
    cases h
    exact ⟨[], .nil⟩
  | cons item items ih =>
    rw [List.foldlM_cons, bind_eq_ok] at h
    obtain ⟨st₁, s₂, hstep, hrest⟩ := h
    obtain ⟨trail, hsteps⟩ := ih hrest
    unfold step at hstep
    obtain ⟨expert, s₀, hlift, hbody⟩ := bind_eq_ok.mp hstep
    obtain ⟨hexpert, rfl⟩ := liftExcept_eq_ok.mp hlift
    obtain ⟨inv, s₁, hinvoke, hrecord⟩ := bind_eq_ok.mp hbody
    exact ⟨_, .cons hexpert hinvoke hrecord hsteps⟩

/-- Every run that returned has a trail. -/
theorem exists_trail {result : PipelineResult} (h : p.run prompt kwargs s = .ok result s') :
    ∃ trail, p.Trail prompt kwargs s result.selectedExperts trail result.output s' := by
  unfold run at h
  obtain ⟨names, s₀, hlift, hselected⟩ := bind_eq_ok.mp h
  obtain ⟨hselect, rfl⟩ := liftExcept_eq_ok.mp hlift
  obtain ⟨u, s₁, hwrite, hwritten⟩ := bind_eq_ok.mp hselected
  obtain ⟨st, s₂, hloop, hlooped⟩ := bind_eq_ok.mp hwritten
  obtain ⟨experts, s₃, hlift', hresult⟩ := bind_eq_ok.mp hlooped
  obtain ⟨-, rfl⟩ := liftExcept_eq_ok.mp hlift'
  cases hresult
  obtain ⟨trail, hsteps⟩ := exists_steps hloop
  exact ⟨trail, hselect, s₁, st, hwrite, hsteps, rfl⟩

/-- Recording a step writes one entry, if intermediate texts are written. -/
theorem recordHandoff_returns {expert : Expert σ} {isLast write : Bool} {kwargs : Kwargs}
    {inv : Invocation} (h : recordHandoff expert isLast write kwargs st inv s = .ok st' s') :
    st'.currentText = inv.output ∧
      s'.memory = if write then (Memory.write (stepEntry expert
        ((inv.currentCache.map (·.sourceText)).getD st.currentText) isLast) s.memory).2
        else s.memory := by
  cases write with
  | true =>
    cases h
    exact ⟨rfl, rfl⟩
  | false =>
    cases h
    exact ⟨rfl, rfl⟩

/-- The steps are those of the selected experts. -/
theorem Steps.names (h : p.Steps prompt n st s items trail st' s') :
    trail.map (·.expert.name) = items.map Prod.fst := by
  induction h with
  | nil => rfl
  | cons hexpert _ _ _ ih =>
    rw [List.map_cons, List.map_cons, ih]
    exact congrArg (· :: _) (p.name_of_getExpert hexpert)

/-- The loop writes what each step was handed, in order. -/
theorem Steps.memory (h : p.Steps prompt n st s items trail st' s')
    (hwrite : p.writeIntermediateToMemory = true) :
    s'.memory = (trail.map RoutedStep.entry).foldl (fun m e => (Memory.write e m).2) s.memory := by
  induction h with
  | nil => rfl
  | @cons st st' st'' s s₁ s₂ s'' item items trail expert inv hexpert hinvoke hrecord hrest ih =>
    -- an invocation reads the memory only, so that the step's write is the first change
    have hkept : s₁.memory = s.memory := by
      split at hinvoke
      · exact (p.first_preserves _ _ _ _).of_eq_ok hinvoke
      · exact (handOver_preserves _ _ _ _).of_eq_ok hinvoke
    have hwritten := (recordHandoff_returns hrecord).2
    rw [if_pos hwrite, hkept] at hwritten
    rw [ih, hwritten]
    rfl

end RoutingPipeline

/-! ## The default store after a run -/

section Store

variable [Hashlib]

/-- The entry of the user's prompt. -/
def promptEntry (prompt : String) : MemoryEntry :=
  { text := prompt, role := "user", expertName := "user" }

/-- The memory has an entry of the step's expert whose text is the step's output. -/
def RoutedStep.Stored (h : RoutedStep σ) (m : InMemoryMemory) : Prop :=
  ∃ e ∈ m.entries, e.role = h.expert.role.value ∧ e.expertName = h.expert.name ∧ e.text = h.output

/-- The writes keep an entry of the step's expert with the step's output. -/
def RoutedStep.KeptBy (h : RoutedStep σ) (written : List MemoryEntry) : Prop :=
  InMemoryMemory.Kept written h.expert.role.value h.expert.name h.output

variable {p : RoutingPipeline σ} {prompt : String} {kwargs : Kwargs}
  {s s' : RunState σ InMemoryMemory} {trail : List (RoutedStep σ)} {names : List String}
  {output : String}

/-- After a run the memory has the prompt and what each step was handed on top of what it had. -/
theorem RoutingPipeline.Trail.memory (h : p.Trail prompt kwargs s names trail output s')
    (hwrite : p.writeIntermediateToMemory = true) :
    s'.memory = (promptEntry prompt :: trail.map RoutedStep.entry).foldl (fun m e => (m.write e).2)
      s.memory := by
  obtain ⟨s₁, st, hprompt, hsteps, -⟩ := h.steps
  rw [hwrite] at hprompt
  cases hprompt
  exact hsteps.memory hwrite

/-- Whether an output is stored is decided by what was written since the last clear. -/
theorem RoutingPipeline.Trail.stored_iff (h : p.Trail prompt kwargs s names trail output s')
    (hwrite : p.writeIntermediateToMemory = true) {embed : String → List ℚ}
    {calls : List MemoryCall} (hmemory : s.memory = Machine.run MemoryCall.act { embed } calls)
    (step : RoutedStep σ) :
    step.Stored s'.memory ↔ step.KeptBy
      (MemoryCall.sinceClear calls ++ promptEntry prompt :: trail.map RoutedStep.entry) := by
  obtain ⟨m, hentries, hindex, hrun⟩ := InMemoryMemory.run_act calls (m := { embed }) rfl rfl
  rw [RoutedStep.Stored, h.memory hwrite, hmemory, hrun, ← List.foldl_append]
  exact InMemoryMemory.exists_stored_iff hentries hindex _

/-- Where ids tell keys apart and the memory began empty, an output is stored exactly if a step of
the same expert was handed it. -/
theorem RoutingPipeline.Trail.stored_iff_handed (h : p.Trail prompt kwargs s names trail output s')
    (hwrite : p.writeIntermediateToMemory = true) {embed : String → List ℚ}
    (hmemory : s.memory = { embed })
    (hdist : InMemoryMemory.Distinguished (promptEntry prompt :: trail.map RoutedStep.entry))
    (step : RoutedStep σ) :
    step.Stored s'.memory ↔ ∃ step' ∈ trail, step'.expert.role = step.expert.role ∧
      step'.expert.name = step.expert.name ∧ step'.given = step.output := by
  have hstart : s.memory = Machine.run MemoryCall.act { embed } [] := hmemory
  have hkept : step.Stored s'.memory ↔
      InMemoryMemory.Kept (promptEntry prompt :: trail.map RoutedStep.entry) _ _ _ :=
    h.stored_iff hwrite hstart step
  rw [hkept, InMemoryMemory.kept_iff_of_distinguished hdist, List.map_cons, List.mem_cons,
    List.map_map, List.mem_map]
  -- no expert has the role under which the prompt is written
  have hrole : step.expert.role.value ≠ "user" := by cases step.expert.role <;> decide
  simp only [Function.comp_apply, RoutedStep.entry, stepEntry, promptEntry, MemoryEntry.key,
    Prod.mk.injEq, hrole, false_and, false_or, ExpertRole.value_injective.eq_iff]

/-- Over the default store, a routed run that writes to memory leaves every output stored under its
expert if and only if the texts that were written keep it: those written before the run, the
prompt, and those that the steps were handed. -/
theorem RoutingPipeline.stores_outputs_iff (p : RoutingPipeline σ) (prompt : String)
    (kwargs : Kwargs) (embed : String → List ℚ) (calls : List MemoryCall)
    (s s' : RunState σ InMemoryMemory) (result : PipelineResult)
    (hmemory : s.memory = Machine.run MemoryCall.act { embed } calls)
    (hwrite : p.writeIntermediateToMemory = true)
    (hrun : p.run prompt kwargs s = .ok result s') :
    ∃ trail, p.Trail prompt kwargs s result.selectedExperts trail result.output s' ∧
      trail.map (·.expert.name) = result.selectedExperts ∧
      ((∀ step ∈ trail, step.Stored s'.memory) ↔
        ∀ step ∈ trail, step.KeptBy
          (MemoryCall.sinceClear calls ++ promptEntry prompt :: trail.map RoutedStep.entry)) := by
  obtain ⟨trail, htrail⟩ := RoutingPipeline.exists_trail hrun
  obtain ⟨s₁, st, -, hsteps, -⟩ := htrail.steps
  refine ⟨trail, htrail, ?_, ?_⟩
  · rw [hsteps.names, List.zipIdx_map_fst]
  · exact forall₂_congr fun step _ => htrail.stored_iff hwrite hmemory step

end Store

/-- Phase 3 over two experts, handing text over and writing to memory. -/
def writingRouting (script : Script) : RoutingPipeline Unit :=
  { duoRouting script script .text ["a", "b"] with writeIntermediateToMemory := true }

/-- The start of a run with the default store, empty. -/
def emptyStore : RunState Unit InMemoryMemory where
  world := ()
  memory := { embed := fun _ => [] }
  clock := fun _ => 0

section Examples

local instance storedDigests : Hashlib := Hashlib.checksum

/-- An expert without KV support says what it is told. -/
def echo : Script := { supportsKVCache := false, generate := .ok }

/-- What the steps of two such experts are about. -/
def echoTrail : List (RoutedStep Unit) :=
  [⟨⟨"a", .analyst, echo.backend, ""⟩, "p", "p", false⟩,
    ⟨⟨"b", .synthesizer, echo.backend, ""⟩, "p", "p", true⟩]

/-- The trail of two experts that echo. -/
theorem RoutingPipeline.Trail.eq_echoTrail {names : List String} {trail : List (RoutedStep Unit)}
    {output : String} {s' : RunState Unit InMemoryMemory}
    (h : (writingRouting echo).Trail "p" {} emptyStore names trail output s') :
    trail = echoTrail := by
  obtain ⟨s₁, st, hwrite, hsteps, -⟩ := h.steps
  obtain rfl : names = ["a", "b"] := (Except.ok.inj h.selected).symm
  cases hwrite
  cases hsteps with
  | cons hexpert hinvoke hrecord hrest =>
    cases hexpert
    cases hinvoke
    cases hrecord
    cases hrest with
    | cons hexpert hinvoke hrecord hrest =>
      cases hexpert
      cases hinvoke
      cases hrecord
      cases hrest
      rfl

/-- Experts that say what they are told have what they say stored. -/
theorem RoutingPipeline.stores_outputs_echo : ∃ result s',
    (writingRouting echo).run "p" {} emptyStore = .ok result s' ∧
      (writingRouting echo).Trail "p" {} emptyStore result.selectedExperts echoTrail result.output
        s' ∧ ∀ step ∈ echoTrail, step.Stored s'.memory := by
  obtain ⟨result, s', hrun, -⟩ := Returned.exists (P := fun _ _ => True)
    (r := (writingRouting echo).run "p" {} emptyStore) (by decide +kernel)
  obtain ⟨trail, htrail, -, hstored⟩ :=
    stores_outputs_iff (writingRouting echo) "p" {} (fun _ => []) [] emptyStore s' result rfl rfl
      hrun
  obtain rfl := htrail.eq_echoTrail
  refine ⟨result, s', hrun, htrail, hstored.mpr ?_⟩
  have hdist : InMemoryMemory.Distinguished (MemoryCall.sinceClear [] ++
      promptEntry "p" :: echoTrail.map RoutedStep.entry) := by
    rw [InMemoryMemory.Distinguished]
    decide
  intro step hstep
  rw [RoutedStep.KeptBy, InMemoryMemory.kept_iff_of_distinguished hdist]
  revert step
  simp only [echoTrail, List.forall_mem_cons]
  decide

end Examples

/-- The output of the run, which is that of the last expert, is nowhere in the memory. -/
theorem RoutingPipeline.final_output_lost :
    let _ := Hashlib.checksum
    ∃ result s', (writingRouting {}).run "p" {} emptyStore = .ok result s' ∧
      ∀ e ∈ s'.memory.entries, e.text ≠ result.output :=
  Returned.exists (by decide +kernel)

end Chen
