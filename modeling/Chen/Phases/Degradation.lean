import Chen.Phases.Metering

/-!
# Failures a run survives

A failed `encode` or transfer leads to text. A failed `decode` is caught in one place only, the
first step of a routed run: everywhere else it ends the run.
-/

namespace Chen

open Effect

variable {σ μ : Type}

/-- None of these inferences is a `decode` that raised. -/
def DecodesReturn (cs : List (Call σ)) : Prop :=
  ∀ c ∈ cs, c.op.isDecode = true → c.op.raised = false

/-- No `generate` call of the trace raised. -/
def GeneratesReturn (cs : List (Call σ)) : Prop :=
  ∀ c ∈ cs, c.op.isGenerate = true → c.op.raised = false

/-- The inferences whose failure nothing catches: the first one is exempt where it is guarded. -/
def unguarded (guarded : Bool) (cs : List (Call σ)) : List (Call σ) :=
  if guarded then (inferences cs).tail else inferences cs

/-! ## One iteration -/

/-- An iteration that returned lost no `decode`, but for the first inference of a guarded first
step. -/
theorem StepTrace.decodesReturn {e : Expert σ} {maxTokens : ℤ} {mode : StepMode}
    {cs : List (Call σ)} {inv : Invocation} (h : StepTrace e maxTokens mode cs (.ok inv)) :
    DecodesReturn (unguarded (mode.first && mode.guarded) cs) := by
  cases h with
  | text _ hr | cache _ _ hr | refused _ _ _ hr | reinvoked _ _ hr =>
    rw [hr.ok_inv.1]
    cases mode.first && mode.guarded <;> simp [DecodesReturn, unguarded]
  | startedOver hfirst hguard _ hr | startedOverRefused hfirst hguard _ hr =>
    simp [DecodesReturn, unguarded, hfirst, hguard]

/-- When `generate` never raises, an iteration that raised did so in a `decode` that nothing
guards. -/
theorem StepTrace.raised_decode {e : Expert σ} {maxTokens : ℤ} {mode : StepMode}
    {cs : List (Call σ)} {x : Exn} (h : StepTrace e maxTokens mode cs (.error x))
    (hfallback : mode.fallback = true) (hgenerate : GeneratesReturn cs) :
    (mode.first && mode.guarded) = false ∧
      ∃ c ∈ inferences cs, c.op.isDecode = true ∧ c.op.raised = true := by
  cases h with
  | text _ hr | refused _ _ _ hr | reinvoked _ _ hr | startedOver _ _ _ hr
  | startedOverRefused _ _ _ hr =>
    cases hr
    simp [GeneratesReturn] at hgenerate
  | broken => simp [GeneratesReturn] at hgenerate
  | aborted _ _ hoff =>
    rw [hfallback] at hoff
    cases hoff
  | cache _ hguard hr =>
    cases hr
    refine ⟨?_, by simp⟩
    by_contra hboth
    obtain ⟨hfirst, hg⟩ : mode.first = true ∧ mode.guarded = true := by simpa using hboth
    exact absurd (hguard hfirst hg) (by simp)

/-! ## Whole runs -/

/-- No decode of a trace raises if none of its two parts' does. -/
theorem decodesReturn_append (cs ds : List (Call σ)) :
    DecodesReturn (cs ++ ds) ↔ DecodesReturn cs ∧ DecodesReturn ds := by
  simp only [DecodesReturn, List.mem_append, or_imp, forall_and]

/-- What follows the first iteration is not guarded. -/
theorem unguarded_append (guarded : Bool) {cs : List (Call σ)} (ds : List (Call σ))
    (h : inferences cs ≠ []) :
    unguarded guarded (cs ++ ds) = unguarded guarded cs ++ unguarded false ds := by
  cases guarded with
  | false => simp [unguarded]
  | true => simp [unguarded, List.tail_append_of_ne_nil h]

section Run

variable {ph : Phase σ} {prompt : String} {kwargs : Kwargs} {names : List String}
  {cs : List (Call σ)} {st : Progress} {textMode : Bool}

/-- A loop that goes on has no decode that raised, but for a guarded first one. -/
theorem Phase.Reaches.decodesReturn (h : ph.Reaches prompt kwargs names cs st textMode) :
    DecodesReturn (unguarded ph.guarded cs) := by
  induction h with
  | start => cases ph.guarded <;> simp [DecodesReturn, unguarded]
  | @step done cs cs' st st' textMode _ name hreach hiter ih =>
    obtain ⟨-, htrace, -⟩ := hiter
    have hstep := htrace.decodesReturn
    by_cases hdone : done = []
    · subst hdone
      rw [hreach.calls_of_nil, List.nil_append]
      exact hstep
    · rw [unguarded_append _ _ (hreach.inferences_ne_nil hdone), decodesReturn_append]
      have hempty : done.isEmpty = false := by simpa using hdone
      rw [hempty, Bool.false_and] at hstep
      exact ⟨ih, hstep⟩

/-- A run that raised although `generate` never did and every name is known has lost a `decode`. -/
theorem Phase.Raises.lost_decode {x : Exn} (h : ph.Raises prompt kwargs names cs x)
    (hknown : ∀ n ∈ names, (ph.base.find n).isSome) (hfallback : ph.fallbackToText = true)
    (hgenerate : GeneratesReturn cs) : ¬DecodesReturn (unguarded ph.guarded cs) := by
  obtain @⟨done, rest, name, cs, cs', st, textMode, _, hsplit, hreach, hstop⟩ := h
  cases hstop with
  | unknown hfind =>
    have hname := hknown name (by simp [← hsplit])
    rw [hfind] at hname
    cases hname
  | raised hfind htrace =>
    have hgen' : GeneratesReturn cs' := fun c hc => hgenerate c (List.mem_append_right _ hc)
    obtain ⟨hguard, c, hc, hdecode, hraised⟩ := htrace.raised_decode hfallback hgen'
    intro hreturn
    have hmem : c ∈ unguarded ph.guarded (cs ++ cs') := by
      by_cases hdone : done = []
      · subst hdone
        rw [hreach.calls_of_nil, List.nil_append]
        have hoff : ph.guarded = false := by simpa using hguard
        rw [hoff]
        exact hc
      · rw [unguarded_append _ _ (hreach.inferences_ne_nil hdone)]
        exact List.mem_append_right _ hc
    rw [hreturn c hmem hdecode] at hraised
    cases hraised

end Run

/-- The run returned a result with one record for each name. -/
def Covers (names : List String) (result : PipelineResult) : Prop :=
  result.selectedExperts = names ∧ result.perExpert.map (·.expertName) = names

/-- When `generate` never raises, a run over known experts returns and covers all of them if and
only if no `decode` raised where nothing catches it. -/
theorem AnyPipeline.returns_iff [Memory μ] (p : AnyPipeline σ) (prompt : String) (kwargs : Kwargs)
    (s : RunState σ μ) (names : List String) (hs : s.calls = [])
    (hnames : p.names prompt = .ok names) (hknown : ∀ n ∈ names, (p.base.find n).isSome)
    (hfallback : p.fallbackToText = true)
    (hgenerate : GeneratesReturn (final (p.run prompt kwargs s)).calls) :
    (∃ result s', p.run prompt kwargs s = .ok result s' ∧ Covers names result) ↔
      DecodesReturn (unguarded p.guardsFirst (final (p.run prompt kwargs s)).calls) := by
  have hends : Ends (p.phase.Returns prompt kwargs names) (p.phase.Raises prompt kwargs names)
      _ (outcome (p.run prompt kwargs s)) := run_ends hs hnames
  have hunguarded (t : RunState σ μ) :
      unguarded p.phase.guarded (handoffs t) = unguarded p.guardsFirst t.calls := by
    rw [unguarded, unguarded, inferences_handoffs, p.phase_guarded]
  have hgen : GeneratesReturn (handoffs (final (p.run prompt kwargs s))) :=
    fun c hc => hgenerate c (List.mem_filter.mp hc).1
  rw [← hunguarded]
  cases hr : p.run prompt kwargs s with
  | ok result s' =>
    rw [hr] at hends
    obtain ⟨hreach, -, hperExpert, -, hselected⟩ := hends
    refine iff_of_true ⟨result, s', rfl, hselected, ?_⟩ hreach.decodesReturn
    rw [hperExpert, hreach.metered.perExpert, hreach.metered.expertNames]
  | error x s' =>
    rw [hr] at hends hgen
    refine iff_of_false ?_ (hends.lost_decode (by rwa [p.phase_base])
      (p.phase_fallbackToText.trans hfallback) hgen)
    rintro ⟨result, s', h, -⟩
    cases h

/-- A backend that accepts every cache and can decode none. -/
def undecodable : Script where
  decode _ := .error (.incompatibleCache "cannot decode")

/-- The second expert refuses the cache. -/
theorem AnyPipeline.returns_duo : ∃ result s',
    (AnyPipeline.kvPass (duoKVPass {} refusing)).run "p" {} idle = .ok result s' ∧
      Covers ["a", "b"] result := by
  have hgenerate : GeneratesReturn
      (final ((AnyPipeline.kvPass (duoKVPass {} refusing)).run "p" {} idle)).calls := by
    unfold GeneratesReturn
    decide +kernel
  have hdecode : DecodesReturn (unguarded false
      (final ((AnyPipeline.kvPass (duoKVPass {} refusing)).run "p" {} idle)).calls) := by
    unfold DecodesReturn
    decide +kernel
  exact (returns_iff (.kvPass (duoKVPass {} refusing)) "p" {} idle ["a", "b"] rfl rfl
    (duoKVPass {} refusing).sequence.known rfl hgenerate).mpr hdecode

/-- The second expert's `decode` raises `IncompatibleCacheError`, and so does the run. -/
theorem AnyPipeline.decode_failure_propagates :
    GeneratesReturn (final ((AnyPipeline.kvPass (duoKVPass {} undecodable)).run "p" {} idle)).calls ∧
      outcome ((AnyPipeline.kvPass (duoKVPass {} undecodable)).run "p" {} idle) =
        .error (.incompatibleCache "cannot decode") := by
  unfold GeneratesReturn
  decide

end Chen
