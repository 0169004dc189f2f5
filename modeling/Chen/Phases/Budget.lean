import Chen.Phases.Runs

/-!
# The token budget of a run

`run` takes the caller's `max_tokens` out of the keyword arguments inside its loop, so only the
first expert of the sequence sees it; every later one gets the pipeline's own setting.
-/

namespace Chen

open Effect

variable {σ μ : Type}

/-- Every inference of the trace was given the budget `m`. -/
def Budgeted (m : ℤ) (cs : List (Call σ)) : Prop := ∀ c ∈ inferences cs, c.op.maxTokens = some m

/-- A trace keeps to a budget if both of its parts do. -/
theorem budgeted_append {m : ℤ} (cs ds : List (Call σ)) :
    Budgeted m (cs ++ ds) ↔ Budgeted m cs ∧ Budgeted m ds := by
  simp only [Budgeted, inferences_append, List.mem_append, or_imp, forall_and]

instance (m : ℤ) (cs : List (Call σ)) : Decidable (Budgeted m cs) :=
  inferInstanceAs (Decidable (∀ _ ∈ _, _))

/-- A step gives all its calls its own budget. -/
theorem StepTrace.budgeted {e : Expert σ} {maxTokens : ℤ} {mode : StepMode} {cs : List (Call σ)}
    {r : Except Exn Invocation} (h : StepTrace e maxTokens mode cs r) : Budgeted maxTokens cs := by
  cases h <;> simp [Budgeted]

namespace Phase

variable {ph : Phase σ} {prompt : String} {m : ℤ} {names : List String} {cs : List (Call σ)}
  {st : Progress} {textMode : Bool}

/-- The first iteration takes the caller's budget, and no later one finds it. -/
theorem Reaches.budget_eq (h : ph.Reaches prompt ⟨some m⟩ names cs st textMode) :
    ph.budget st = if names = [] then m else ph.maxTokensPerExpert := by
  cases h with
  | start => rfl
  | step _ hiter =>
    obtain ⟨-, -, hrecords⟩ := hiter
    simp [budget, hrecords.kwargs]

/-- In the first iteration, or if the two budgets are equal, it is the caller's. -/
theorem Reaches.budget_eq_caller (h : ph.Reaches prompt ⟨some m⟩ names cs st textMode)
    (hm : names = [] ∨ m = ph.maxTokensPerExpert) : ph.budget st = m := by
  rw [h.budget_eq]
  rcases hm with hnil | heq
  · rw [if_pos hnil]
  · rw [← heq, ite_self]

/-- With one expert, or with the pipeline's own budget, every call has the caller's budget. -/
theorem Reaches.budgeted (h : ph.Reaches prompt ⟨some m⟩ names cs st textMode)
    (hm : names.length ≤ 1 ∨ m = ph.maxTokensPerExpert) : Budgeted m cs := by
  induction h with
  | start => simp [Budgeted]
  | @step done cs cs' st st' textMode _ name hreach hiter ih =>
    obtain ⟨-, htrace, -⟩ := hiter
    have hfirst : done = [] ∨ m = ph.maxTokensPerExpert := hm.imp_left (by simp)
    rw [budgeted_append]
    refine ⟨ih (hfirst.imp_left (by simp +contextual)), ?_⟩
    rw [← hreach.budget_eq_caller hfirst]
    exact htrace.budgeted

/-- So it is in a run that raises. -/
theorem Raises.budgeted {x : Exn} (h : ph.Raises prompt ⟨some m⟩ names cs x)
    (hm : names.length ≤ 1 ∨ m = ph.maxTokensPerExpert) : Budgeted m cs := by
  obtain @⟨done, rest, name, cs, cs', st, textMode, _, hsplit, hreach, hstop⟩ := h
  have hfirst : done = [] ∨ m = ph.maxTokensPerExpert := by
    refine hm.imp_left fun hlen => ?_
    rw [← hsplit, List.length_append, List.length_cons] at hlen
    exact List.length_eq_zero_iff.mp (by omega)
  rw [budgeted_append]
  refine ⟨hreach.budgeted (hfirst.imp_left (by simp +contextual)), ?_⟩
  cases hstop with
  | unknown => simp [Budgeted]
  | raised hfind htrace =>
    rw [← hreach.budget_eq_caller hfirst]
    exact htrace.budgeted

/-- A loop past its second iteration has made a call with the pipeline's budget. -/
theorem Reaches.default_budget (h : ph.Reaches prompt ⟨some m⟩ names cs st textMode)
    (hnames : 2 ≤ names.length) :
    ∃ c ∈ inferences cs, c.op.maxTokens = some ph.maxTokensPerExpert := by
  cases h with
  | start => simp at hnames
  | @step done cs cs' st st' textMode _ name hreach hiter =>
    obtain ⟨-, htrace, -⟩ := hiter
    have hdone : done ≠ [] := by
      rintro rfl
      simp at hnames
    obtain ⟨c, hc⟩ := List.exists_mem_of_ne_nil _ htrace.inferences_ne_nil
    have hbudget := htrace.budgeted c hc
    rw [hreach.budget_eq, if_neg hdone] at hbudget
    exact ⟨c, by rw [inferences_append]; exact List.mem_append_right _ hc, hbudget⟩

end Phase

/-! ## The first iteration and the rest -/

section Split

variable [Memory μ] {ph : Phase σ} {prompt : String} {m : ℤ} {S : Type}
  {progress : S → Progress} {textMode : S → Bool} {step : S → String × ℕ → Run σ μ S}
  (hstep : ∀ st item, (item.2 = 0 → textMode st = ph.startText) →
    Emits handoffs (step st item)
      (Ends (fun cs st' => ph.Iterated (item.2 = 0) item.1 (progress st) (textMode st) cs
          (progress st') (textMode st'))
        (ph.Stopped (item.2 = 0) item.1 (progress st) (textMode st))))

include hstep

omit [Memory μ] in
/-- The first iteration keeps to the caller's budget, and takes it out of the arguments. -/
theorem first_budgeted {init : S} (hinit : progress init =
      { metrics := { cost := ph.base.cost }, currentText := prompt, kwargs := ⟨some m⟩ })
    (htext : textMode init = ph.startText) (name : String) :
    Emits handoffs (step init (name, 0)) fun cs r => Budgeted m cs ∧
      ∀ st, r = .ok st → (progress st).kwargs.maxTokens = none := by
  have hbudget : ph.budget (progress init) = m := by rw [hinit]; rfl
  refine (hstep init (name, 0) fun _ => htext).mono ?_
  rintro cs (x | st) h
  · refine ⟨?_, nofun⟩
    cases h with
    | unknown => simp [Budgeted]
    | raised _ htrace => exact hbudget ▸ htrace.budgeted
  · rw [Ends] at h
    generalize textMode st = text at h
    obtain ⟨-, htrace, hrecords⟩ := h
    refine ⟨hbudget ▸ htrace.budgeted, ?_⟩
    rintro _ ⟨⟩
    rw [hrecords.kwargs]

omit [Memory μ] in
/-- The iterations after the first give the pipeline's budget to the second expert at once, so
they keep to another one only if the second name is no expert's. -/
theorem rest_budgeted_iff {st : S} (hst : (progress st).kwargs.maxTokens = none)
    (hm : m ≠ ph.maxTokensPerExpert) (name : String) {items : List (String × ℕ)}
    (hitems : ∀ item ∈ items, item.2 ≠ 0) :
    Emits handoffs (((name, 1) :: items).foldlM step st) fun cs _ =>
      Budgeted m cs ↔ ph.base.find name = none := by
  have hbudget : ph.budget (progress st) = ph.maxTokensPerExpert := by
    rw [Phase.budget, hst]
    rfl
  -- An iteration that finds its expert makes a call, and with the budget of the pipeline.
  have hcall {e : Expert σ} {mode : StepMode} {cs cs' : List (Call σ)}
      {r : Except Exn Invocation} (hfind : ph.base.find name = some e)
      (htrace : StepTrace e (ph.budget (progress st)) mode cs r) :
      Budgeted m (cs ++ cs') ↔ ph.base.find name = none := by
    refine iff_of_false (fun h => ?_) (by simp [hfind])
    obtain ⟨c, hc⟩ := List.exists_mem_of_ne_nil _ htrace.inferences_ne_nil
    have hown := htrace.budgeted c hc
    rw [((budgeted_append cs cs').mp h).1 c hc, hbudget] at hown
    exact hm (Option.some.inj hown)
  have hrest : ∀ st', Emits handoffs (items.foldlM step st') fun _ _ => True := by
    intro st'
    refine (Emits.foldlM (I := fun _ _ _ => True) (E := fun _ _ => True) ?_ trivial).mono
      fun _ _ _ => trivial
    intro done item rest hsplit _ st'' _
    have hitem : item.2 ≠ 0 := hitems item (by simp [← hsplit])
    refine (hstep st'' item fun h => absurd h hitem).mono ?_
    rintro cs (_ | _) _ <;> trivial
  rw [List.foldlM_cons]
  refine (hstep st (name, 1) nofun).bind (fun cs st' h => ?_) fun cs x h => ?_
  · rw [Ends] at h
    generalize textMode st' = text at h
    obtain ⟨hfind, htrace, -⟩ := h
    exact (hrest st').mono fun cs' r _ => hcall hfind htrace
  · cases h with
    | unknown hfind => exact iff_of_true (by simp [Budgeted]) hfind
    | raised hfind htrace =>
      rw [← List.append_nil cs]
      exact hcall hfind htrace

variable (ph progress textMode) in
/-- A run over two experts or more, with a budget that is not the pipeline's: the first iteration
must raise, or the second name be no expert's. -/
theorem run_budgeted_iff {init : S} (hinit : progress init =
      { metrics := { cost := ph.base.cost }, currentText := prompt, kwargs := ⟨some m⟩ })
    (htext : textMode init = ph.startText) (hm : m ≠ ph.maxTokensPerExpert)
    (first second : String) (rest : List String) (write : Bool)
    (experts : Except Exn (List (Expert σ))) (build : S → List (Expert σ) → PipelineResult)
    {s : RunState σ μ} (hs : handoffs s = []) :
    Budgeted m (handoffs (final ((do
      writePrompt write prompt
      let st ← (first :: second :: rest).zipIdx.foldlM step init
      let experts ← liftExcept experts
      pure (build st experts)) s))) ↔
    (∃ x, outcome ((do
      writePrompt write prompt
      let _ ← ((first :: second :: rest).zipIdx.take 1).foldlM step init
      pure ()) s) = .error x) ∨ ph.base.find second = none := by
  have hfirst : Emits handoffs (do writePrompt write prompt; step init (first, 0))
      fun cs r => Budgeted m cs ∧ ∀ st, r = .ok st → (progress st).kwargs.maxTokens = none :=
    (writePrompt_emits write prompt).bind_silent fun _ _ =>
      first_budgeted hstep hinit htext first
  have hrest (st : S) (hst : (progress st).kwargs.maxTokens = none) :
      Emits handoffs (do
        let st' ← ((second, 1) :: rest.zipIdx 2).foldlM step st
        let experts ← liftExcept experts
        pure (build st' experts))
        fun cs _ => Budgeted m cs ↔ ph.base.find second = none := by
    have hitems : ∀ item ∈ rest.zipIdx 2, item.2 ≠ 0 := fun item hitem => by
      have := List.le_snd_of_mem_zipIdx hitem
      omega
    have hpost (st' : S) : Emits handoffs (do
        let experts ← liftExcept experts
        pure (build st' experts) : Run σ μ PipelineResult) fun cs _ => cs = [] :=
      (Emits.liftExcept (Φ := fun cs _ => cs = []) rfl).bind
        (fun cs _ hcs => Emits.pure (by simp [hcs])) fun _ _ hcs => hcs
    refine (rest_budgeted_iff hstep hst hm second hitems).bind (fun cs st' h => ?_) fun _ _ h => h
    refine (hpost st').mono fun cs' r hcs' => ?_
    rwa [hcs', List.append_nil]
  have hsplit := Emits.bind_iff budgeted_append hfirst hrest hs
  rw [← raises_bind_pure _ fun _ => ()] at hsplit
  simpa only [List.zipIdx_cons, List.take_succ_cons, List.take_zero, List.foldlM_cons,
    List.foldlM_nil, bind_assoc, pure_bind] using hsplit

end Split

section FirstIteration

variable [Memory μ]

/-- The run up to the end of its first iteration. -/
def AnyPipeline.firstIteration (prompt : String) (kwargs : Kwargs) (names : List String) :
    AnyPipeline σ → Run σ μ Unit
  | .cascade p => do
    writePrompt p.writeIntermediateToMemory prompt
    let _ ← (names.zipIdx.take 1).foldlM p.step
      { metrics := { cost := p.cost }, currentText := prompt, kwargs }
    pure ()
  | .kvPass p => do
    writePrompt p.writeIntermediateToMemory prompt
    let _ ← (names.zipIdx.take 1).foldlM (p.step prompt)
      { metrics := { cost := p.cost }, currentText := prompt, textMode := false, kwargs }
    pure ()
  | .routing p => do
    writePrompt p.writeIntermediateToMemory prompt
    let _ ← (names.zipIdx.take 1).foldlM (p.step prompt names.length)
      { metrics := { cost := p.cost }, currentText := prompt
        textMode := p.handoff = .text, kwargs }
    pure ()

/-- The second expert of the sequence is not called: the first iteration raises, or the second name
is no expert's. -/
def AnyPipeline.StopsBeforeSecond (p : AnyPipeline σ) (prompt : String) (kwargs : Kwargs)
    (names : List String) (s : RunState σ μ) : Prop :=
  (∃ x, outcome (p.firstIteration prompt kwargs names s) = .error x) ∨
    ∃ second ∈ names[1]?, p.base.find second = none

/-- Over two experts or more, another budget than the pipeline's is kept only by a run that does
not call the second one. -/
theorem AnyPipeline.second_budgeted_iff (p : AnyPipeline σ) (prompt : String) (m : ℤ)
    (s : RunState σ μ) (first second : String) (rest : List String) (hs : s.calls = [])
    (hnames : p.names prompt = .ok (first :: second :: rest)) (hm : m ≠ p.maxTokensPerExpert) :
    Budgeted m (handoffs (final (p.run prompt ⟨some m⟩ s))) ↔
      p.StopsBeforeSecond prompt ⟨some m⟩ (first :: second :: rest) s := by
  have hempty : handoffs s = [] := by rw [handoffs, hs, List.filter_nil]
  simp only [StopsBeforeSecond, List.getElem?_cons_succ, List.getElem?_cons_zero,
    Option.mem_def, Option.some.injEq, exists_eq_left']
  cases p with
  | cascade p =>
    have hseq : p.sequence.names = first :: second :: rest := Except.ok.inj hnames
    simp only [run, CascadePipeline.run, hseq]
    exact run_budgeted_iff p.phase id (fun _ => true)
      (fun st item _ => p.step_emits st item) rfl rfl hm first second rest _ _ _ hempty
  | kvPass p =>
    have hseq : p.sequence.names = first :: second :: rest := Except.ok.inj hnames
    simp only [run, KVPassPipeline.run, hseq]
    exact run_budgeted_iff p.phase HandoffProgress.toProgress HandoffProgress.textMode
      (fun st item h => p.step_emits prompt st item h) rfl rfl hm first second rest _ _ _ hempty
  | routing p =>
    have hselect : p.selectNames prompt = .ok (first :: second :: rest) := hnames
    simp only [run, RoutingPipeline.run, hselect]
    exact run_budgeted_iff p.phase HandoffProgress.toProgress HandoffProgress.textMode
      (fun st item _ => p.step_emits prompt _ st item) rfl rfl hm first second rest _ _ _ hempty

end FirstIteration

/-- A run gives every call the caller's budget exactly when its sequence has one expert, or the
caller's budget is the pipeline's own, or the second expert is not called. A run that returns has
called it. -/
theorem AnyPipeline.budgeted_iff [Memory μ] (p : AnyPipeline σ) (prompt : String) (m : ℤ)
    (s : RunState σ μ) (names : List String) (hs : s.calls = [])
    (hnames : p.names prompt = .ok names) :
    (Budgeted m (final (p.run prompt ⟨some m⟩ s)).calls ↔
      names.length ≤ 1 ∨ m = p.maxTokensPerExpert ∨
        p.StopsBeforeSecond prompt ⟨some m⟩ names s) ∧
    ∀ result s', p.run prompt ⟨some m⟩ s = .ok result s' →
      (Budgeted m s'.calls ↔ names.length ≤ 1 ∨ m = p.maxTokensPerExpert) := by
  have hends : Ends (p.phase.Returns prompt ⟨some m⟩ names) (p.phase.Raises prompt ⟨some m⟩ names)
      _ (outcome (p.run prompt ⟨some m⟩ s)) := run_ends hs hnames
  have hhandoffs (t : RunState σ μ) : Budgeted m (handoffs t) ↔ Budgeted m t.calls := by
    rw [Budgeted, Budgeted, inferences_handoffs]
  have henough (hm : names.length ≤ 1 ∨ m = p.maxTokensPerExpert) :
      Budgeted m (final (p.run prompt ⟨some m⟩ s)).calls := by
    rw [← p.phase_maxTokensPerExpert] at hm
    rw [← hhandoffs]
    cases hr : outcome (p.run prompt ⟨some m⟩ s) with
    | ok result =>
      rw [hr] at hends
      obtain ⟨hreach, -⟩ := hends
      exact hreach.budgeted hm
    | error x =>
      rw [hr] at hends
      exact hends.budgeted hm
  constructor
  · rw [← or_assoc]
    by_cases hm : names.length ≤ 1 ∨ m = p.maxTokensPerExpert
    · exact iff_of_true (henough hm) (.inl hm)
    · obtain ⟨hlen, hbudget⟩ := not_or.mp hm
      obtain - | ⟨first, - | ⟨second, rest⟩⟩ := names
      · simp at hlen
      · simp at hlen
      rw [or_iff_right hm, ← hhandoffs]
      exact p.second_budgeted_iff prompt m s first second rest hs hnames hbudget
  · intro result s' hrun
    rw [hrun] at hends henough
    obtain ⟨hreach, -⟩ := hends
    refine ⟨fun hbudget => ?_, henough⟩
    by_contra! hm
    obtain ⟨c, hc, hdefault⟩ := hreach.default_budget hm.1
    have hcaller := (hhandoffs s').mpr hbudget c hc
    rw [hdefault, p.phase_maxTokensPerExpert] at hcaller
    exact hm.2 (Option.some.inj hcaller).symm

/-- The caller asks for the pipeline's own budget. -/
theorem AnyPipeline.budgeted_duo :
    Budgeted 256 (final ((AnyPipeline.kvPass (duoKVPass {} {})).run "p" ⟨some 256⟩ idle)).calls :=
  (budgeted_iff (.kvPass (duoKVPass {} {})) "p" 256 idle ["a", "b"] rfl rfl).1.mpr (.inr (.inl rfl))

/-- The caller asks for 16 tokens; the second expert gets 256. -/
theorem AnyPipeline.budget_forgotten : ∃ result s',
    (AnyPipeline.kvPass (duoKVPass {} {})).run "p" ⟨some 16⟩ idle = .ok result s' ∧
      ¬Budgeted 16 s'.calls :=
  Returned.exists (by decide +kernel)

end Chen
