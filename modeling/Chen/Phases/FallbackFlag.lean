import Chen.Phases.Metering
import Chen.Phases.Reraise

/-!
# Whether a run fell back to text

`text_mode_fallback` is the loop's `text_mode` after the last step. It is set where the pipeline
itself turns to text. Where `invoke` does so on its own, or a later expert is given text for want of
a cache, `generate` runs and the flag stays off; a routed run with text handoff starts with the flag
on.
-/

namespace Chen

open Effect

variable {σ μ : Type}

/-- Some step took its output from `generate`: the `generate` calls of a step come last. -/
def Generated (cs : List (Call σ)) : Prop := ∃ c ∈ cs, c.op.isGenerate = true

/-- The run turned to text in its first step: no cache was there to transfer, or the attempt on the
cache raised. -/
def StartsOnText (cs : List (Call σ)) : Prop :=
  cs.head?.any (·.op.isGenerate) = true ∨ (inferences cs).head?.any (·.op.raised) = true

/-- Past the first expert a transfer raised. -/
def TurnsToText (cs : List (Call σ)) : Prop :=
  ∃ c ∈ afterFirst cs, c.op.isTransfer = true ∧ c.op.raised = true

instance (cs : List (Call σ)) : Decidable (Generated cs) :=
  inferInstanceAs (Decidable (∃ c ∈ cs, _))

instance (cs : List (Call σ)) : Decidable (StartsOnText cs) :=
  inferInstanceAs (Decidable (_ ∨ _))

instance (cs : List (Call σ)) : Decidable (TurnsToText cs) :=
  inferInstanceAs (Decidable (∃ c ∈ afterFirst cs, _))

/-! ## Traces put together -/

section Append

variable {cs ds : List (Call σ)}

/-- A generation in a trace that is cut. -/
theorem generated_append : Generated (cs ++ ds) ↔ Generated cs ∨ Generated ds := by
  simp only [Generated, List.mem_append, or_and_right, exists_or]

/-- How a run starts is settled by its first inference. -/
theorem startsOnText_append (h : inferences cs ≠ []) :
    StartsOnText (cs ++ ds) ↔ StartsOnText cs := by
  have hcs : cs ≠ [] := by
    rintro rfl
    exact h rfl
  rw [StartsOnText, StartsOnText, inferences_append, List.head?_append_of_ne_nil _ hcs,
    List.head?_append_of_ne_nil _ h]

/-- A trace turns to text in its first part, or by a transfer that raised in its second. -/
theorem turnsToText_append (h : inferences cs ≠ []) :
    TurnsToText (cs ++ ds) ↔
      TurnsToText cs ∨ ∃ c ∈ ds, c.op.isTransfer = true ∧ c.op.raised = true := by
  rw [TurnsToText, afterFirst_append h]
  simp only [List.mem_append, or_and_right, exists_or]
  exact Iff.rfl

end Append

/-! ## One iteration -/

section Step

variable {e : Expert σ} {maxTokens : ℤ} {mode : StepMode} {cs : List (Call σ)} {inv : Invocation}

/-- An iteration calls `generate` exactly when it records that it used no cache. -/
theorem StepTrace.generated_iff (h : StepTrace e maxTokens mode cs (.ok inv)) :
    Generated cs ↔ inv.metrics.usedKVCache = false := by
  cases h with
  | cache _ _ hr =>
    rw [hr.ok_inv.2.2.usedKVCache]
    simp [Generated]
  | text _ hr | refused _ _ _ hr | reinvoked _ _ hr | startedOver _ _ _ hr
  | startedOverRefused _ _ _ hr =>
    rw [hr.ok_inv.2.2.usedKVCache]
    simp [Generated]

/-- The first iteration sets the flag where it starts on text. -/
theorem StepTrace.first_flag_iff (h : StepTrace e maxTokens mode cs (.ok inv))
    (hfirst : mode.first = true) : inv.textMode = true ↔ StartsOnText cs := by
  cases h with
  | text htext hr =>
    rw [hr.ok_inv.2.1, htext, hfirst]
    simp [StartsOnText]
  | cache _ _ hr | refused _ _ _ hr =>
    rw [hr.ok_inv.2.1, hr.ok_inv.1]
    simp [StartsOnText]
  | startedOver _ _ _ hr | startedOverRefused _ _ _ hr =>
    rw [hr.ok_inv.2.1]
    simp [StartsOnText]
  | reinvoked hf =>
    rw [hfirst] at hf
    cases hf

/-- A first step does not turn to text. -/
theorem StepTrace.first_not_turnsToText (h : StepTrace e maxTokens mode cs (.ok inv))
    (hfirst : mode.first = true) : ¬TurnsToText cs := by
  rintro ⟨c, hc, htransfer, -⟩
  rw [h.first_transfers hfirst c hc] at htransfer
  cases htransfer

/-- A later iteration sets the flag where its transfer raised. -/
theorem StepTrace.later_flag_iff (h : StepTrace e maxTokens mode cs (.ok inv))
    (hfirst : mode.first = false) :
    inv.textMode = true ↔
      mode.textMode = true ∨ ∃ c ∈ cs, c.op.isTransfer = true ∧ c.op.raised = true := by
  cases h with
  | text htext hr =>
    rw [hr.ok_inv.2.1, htext, hfirst]
    simp
  | cache hmode _ hr =>
    rw [hr.ok_inv.2.1, hmode]
    simp
  | reinvoked _ hmode hr =>
    rw [hr.ok_inv.2.1, hmode]
    simp
  | refused hf | startedOver hf | startedOverRefused hf =>
    rw [hfirst] at hf
    cases hf

/-- An iteration that sets the flag calls `generate`. -/
theorem StepTrace.generated_of_flag (h : StepTrace e maxTokens mode cs (.ok inv))
    (hflag : inv.textMode = true) : Generated cs := by
  cases h with
  | cache _ _ hr =>
    rw [hr.ok_inv.2.1] at hflag
    cases hflag
  | text | refused | reinvoked | startedOver | startedOverRefused => simp [Generated]

end Step

/-! ## The loop -/

section Loop

variable {ph : Phase σ} {prompt : String} {kwargs : Kwargs} {names : List String}
  {cs : List (Call σ)} {st : Progress} {textMode : Bool}

/-- A loop has generated if one of its steps did without a cache. -/
theorem Phase.Reaches.generated_iff (h : ph.Reaches prompt kwargs names cs st textMode) :
    Generated cs ↔ ∃ m ∈ st.perExpert, m.usedKVCache = false := by
  induction h with
  | start => simp [Generated]
  | step hreach hiter ih =>
    obtain ⟨-, htrace, hrecords⟩ := hiter
    rw [generated_append, ih, htrace.generated_iff, hrecords.perExpert]
    simp [or_and_right, exists_or]

/-- Text mode is never left. -/
theorem Phase.Reaches.textMode_of_start (h : ph.Reaches prompt kwargs names cs st textMode)
    (hstart : ph.startText = true) : textMode = true := by
  induction h with
  | start => exact hstart
  | step hreach hiter ih =>
    obtain ⟨-, htrace, -⟩ := hiter
    exact htrace.textMode_mono ih

/-- A loop that hands caches over is in text mode exactly when a step of it turned to text. -/
theorem Phase.Reaches.textMode_iff (h : ph.Reaches prompt kwargs names cs st textMode)
    (hstart : ph.startText = false) :
    textMode = true ↔ StartsOnText cs ∨ TurnsToText cs := by
  induction h with
  | start => simp [hstart, StartsOnText, TurnsToText, afterFirst]
  | @step done cs cs' st st' textMode _ name hreach hiter ih =>
    obtain ⟨-, htrace, -⟩ := hiter
    by_cases hdone : done = []
    · subst hdone
      -- the first iteration has no calls before it, and no later transfer
      rw [hreach.calls_of_nil, List.nil_append]
      rw [htrace.first_flag_iff rfl]
      simp [htrace.first_not_turnsToText rfl]
    · -- how the run starts is settled, so that only a failed transfer matters
      have hinfer := hreach.inferences_ne_nil hdone
      have hlater : done.isEmpty = false := by simpa using hdone
      rw [htrace.later_flag_iff hlater, ih, startsOnText_append hinfer,
        turnsToText_append hinfer, or_assoc]

/-- A loop that turned to text has called `generate`. -/
theorem Phase.Reaches.generated_of_textMode (h : ph.Reaches prompt kwargs names cs st textMode)
    (hstart : ph.startText = false) (hmode : textMode = true) : Generated cs := by
  cases h with
  | start =>
    rw [hstart] at hmode
    cases hmode
  | step hreach hiter =>
    obtain ⟨-, htrace, -⟩ := hiter
    rw [generated_append]
    exact .inr (htrace.generated_of_flag hmode)

end Loop

/-! ## Whole runs -/

/-- `text_mode_fallback` of a run over `names` is the loop's last `text_mode`, and its records are
the loop's. -/
def Phase.Flags (ph : Phase σ) (prompt : String) (kwargs : Kwargs) (names : List String)
    (cs : List (Call σ)) (result : PipelineResult) : Prop :=
  ∃ st textMode, ph.Reaches prompt kwargs names cs st textMode ∧
    result.metadata.textModeFallback = some textMode ∧ result.perExpert = st.perExpert

section Run

variable [Memory μ] (prompt : String) (kwargs : Kwargs)

/-- A run that returns puts the loop's `text_mode` into its metadata. -/
theorem run_flags (ph : Phase σ) {names : List String} {loop : Run σ μ HandoffProgress}
    (hloop : Emits handoffs loop
      (Ends (fun cs st => ph.Reaches prompt kwargs names cs st.toProgress st.textMode)
        (ph.Raises prompt kwargs names)))
    (write : Bool) (build : HandoffProgress → List (Expert σ) → PipelineResult)
    (hflag : ∀ st es, (build st es).metadata.textModeFallback = some st.textMode)
    (hperExpert : ∀ st es, (build st es).perExpert = st.perExpert) :
    Emits handoffs (do
      writePrompt write prompt
      let st ← loop
      let experts ← liftExcept (ph.base.getExperts names)
      pure (build st experts))
      (Ends (ph.Flags prompt kwargs names) fun _ _ => True) := by
  refine (writePrompt_emits write prompt).bind_silent fun _ _ => hloop.bind ?_ fun _ _ _ => trivial
  intro cs st hreach
  rw [Ends] at hreach
  rw [ph.base.getExperts_eq hreach.found]
  refine Emits.pure ?_
  rw [List.append_nil]
  exact ⟨st.toProgress, st.textMode, hreach, hflag _ _, hperExpert _ _⟩

/-- The flag of a run of phase 2. -/
theorem KVPassPipeline.run_flags (p : KVPassPipeline σ) :
    Emits handoffs (p.run prompt kwargs : Run σ μ PipelineResult)
      (Ends (p.phase.Flags prompt kwargs p.sequence.names) fun _ _ => True) := by
  refine Chen.run_flags prompt kwargs p.phase ?_ p.writeIntermediateToMemory _ (fun _ _ => rfl)
    fun _ _ => rfl
  exact loop_emits p.phase prompt kwargs _ _ p.sequence.names
    (fun st item h => p.step_emits prompt st item h) rfl rfl

/-- The flag of a run of phase 3. -/
theorem RoutingPipeline.run_flags (p : RoutingPipeline σ) :
    Emits handoffs (p.run prompt kwargs : Run σ μ PipelineResult)
      (Ends (fun cs result => ∃ names, p.phase.Flags prompt kwargs names cs result)
        fun _ _ => True) := by
  cases hselect : p.selectNames prompt with
  | error x =>
    unfold run
    rw [hselect]
    exact Emits.throw trivial
  | ok names =>
    have hflags : Emits handoffs (p.run prompt kwargs : Run σ μ PipelineResult)
        (Ends (p.phase.Flags prompt kwargs names) fun _ _ => True) := by
      unfold run
      rw [hselect]
      refine Chen.run_flags prompt kwargs p.phase ?_ p.writeIntermediateToMemory _
        (fun _ _ => rfl) fun _ _ => rfl
      exact loop_emits p.phase prompt kwargs _ _ names
        (fun st item _ => p.step_emits prompt names.length st item) rfl rfl
    refine hflags.mono ?_
    rintro cs (x | result) h
    · trivial
    · exact ⟨names, h⟩

end Run

namespace AnyPipeline

/-- Handoff by KV-cache was requested. -/
def requestsCache : AnyPipeline σ → Bool
  | .cascade _ => false
  | .kvPass _ => true
  | .routing p => p.handoff = .kvCache

/-- A pipeline that hands over starts in text mode unless caches were requested. -/
theorem startText_eq {p : AnyPipeline σ} : p.phase.startText = !p.requestsCache := by
  cases p with
  | cascade p => rfl
  | kvPass p => rfl
  | routing p =>
    show (decide (p.handoff = .text)) = !(decide (p.handoff = .kvCache))
    cases p.handoff <;> rfl

variable [Memory μ]

/-- The flag of a run that returned. -/
theorem flags_of_run {p : AnyPipeline σ} {prompt : String} {kwargs : Kwargs} {s s' : RunState σ μ}
    {result : PipelineResult} (hs : s.calls = []) (hrun : p.run prompt kwargs s = .ok result s')
    (hcascade : ∀ q, p ≠ .cascade q) :
    ∃ names, p.phase.Flags prompt kwargs names (handoffs s') result := by
  have hempty : handoffs s = [] := by rw [handoffs, hs, List.filter_nil]
  cases p with
  | cascade q => exact absurd rfl (hcascade q)
  | kvPass q =>
    have h := (q.run_flags prompt kwargs).run hempty
    rw [show q.run prompt kwargs s = .ok result s' from hrun] at h
    exact ⟨_, h⟩
  | routing q =>
    have h := (q.run_flags prompt kwargs).run hempty
    rw [show q.run prompt kwargs s = .ok result s' from hrun] at h
    exact h

/-- The records of a run that returned say whether it called `generate`. -/
theorem generated_iff_usedKVCache {p : AnyPipeline σ} {prompt : String} {kwargs : Kwargs}
    {s s' : RunState σ μ} {result : PipelineResult} (hs : s.calls = [])
    (hrun : p.run prompt kwargs s = .ok result s') :
    Generated (handoffs s') ↔ ∃ m ∈ result.perExpert, m.usedKVCache = false := by
  obtain ⟨-, ⟨hreach, -, hperExpert, -, -⟩⟩ := run_returns hs hrun
  rw [hperExpert, hreach.generated_iff]

/-- The flag of a run that returned tells whether caches were requested and text was used instead,
if and only if they were and either no step called `generate`, or the run turned to text in its
first step or by a failed transfer of a later one. -/
theorem flag_truthful_iff (p : AnyPipeline σ) (prompt : String) (kwargs : Kwargs)
    (s s' : RunState σ μ) (result : PipelineResult) (hs : s.calls = [])
    (hrun : p.run prompt kwargs s = .ok result s') (hcascade : ∀ q, p ≠ .cascade q) :
    (result.metadata.textModeFallback = some true ↔
        p.requestsCache = true ∧ Generated (handoffs s')) ↔
      p.requestsCache = true ∧
        (¬Generated (handoffs s') ∨ StartsOnText (handoffs s') ∨ TurnsToText (handoffs s')) := by
  obtain ⟨names, st, textMode, hreach, hflag, -⟩ := flags_of_run hs hrun hcascade
  rw [hflag, Option.some.injEq]
  cases hrequested : p.requestsCache with
  | false =>
    have hstart : p.phase.startText = true := by rw [startText_eq, hrequested]; rfl
    -- text handoff: the flag is on from the start
    simp [hreach.textMode_of_start hstart]
  | true =>
    have hstart : p.phase.startText = false := by rw [startText_eq, hrequested]; rfl
    have hgenerated := hreach.generated_of_textMode hstart
    rw [← hreach.textMode_iff hstart]
    constructor
    · intro htruthful
      by_cases hgen : Generated (handoffs s')
      · exact ⟨rfl, .inr (htruthful.mpr ⟨rfl, hgen⟩)⟩
      · exact ⟨rfl, .inl hgen⟩
    · rintro ⟨-, hno | htext⟩
      · exact ⟨fun h => absurd (hgenerated h) hno, fun h => absurd h.2 hno⟩
      · exact ⟨fun h => ⟨rfl, hgenerated h⟩, fun _ => htext⟩

/-- Both experts decode, and the flag is off. -/
theorem flag_truthful_duo : ∃ result s',
    (AnyPipeline.kvPass (duoKVPass {} {})).run "p" {} idle = .ok result s' ∧
      (result.metadata.textModeFallback = some true ↔
        (AnyPipeline.kvPass (duoKVPass {} {})).requestsCache = true ∧ Generated (handoffs s')) := by
  obtain ⟨result, s', hrun, hno⟩ := Returned.exists
    (P := fun _ s' => ¬Generated (handoffs s'))
    (r := (AnyPipeline.kvPass (duoKVPass {} {})).run "p" {} idle) (by decide +kernel)
  exact ⟨result, s', hrun,
    (flag_truthful_iff _ _ _ _ _ _ rfl hrun nofun).mpr ⟨rfl, .inl hno⟩⟩

/-- The first expert's backend refuses its own cache: `generate` makes its output, and the flag
stays off. With text handoff the flag is on. -/
theorem flag_untruthful :
    (∃ result s', (AnyPipeline.kvPass (duoKVPass refusing {})).run "p" {} idle = .ok result s' ∧
      ¬(result.metadata.textModeFallback = some true ↔
        (AnyPipeline.kvPass (duoKVPass refusing {})).requestsCache = true ∧
          Generated (handoffs s'))) ∧
    ∃ result s', (AnyPipeline.routing (duoRouting {} {} .text ["a"])).run "p" {} idle =
        .ok result s' ∧
      ¬(result.metadata.textModeFallback = some true ↔
        (AnyPipeline.routing (duoRouting {} {} .text ["a"])).requestsCache = true ∧
          Generated (handoffs s')) :=
  ⟨Returned.exists (by decide +kernel), Returned.exists (by decide)⟩

end AnyPipeline

end Chen
