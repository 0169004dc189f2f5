import Chen.Benchmarks.Kpis
import Chen.Phases.Runs

/-!
# The benchmark runner

`run_task` runs the samples of a task one after the other, adds up what they cost and how they
scored, and reports the key performance indicators. The distinct parameters are not added up: they
are those of the last sample.
-/

namespace Chen

open Effect

/-- A benchmark task: prompts with the expected answers, and a grader of the outputs. -/
structure BenchmarkTask where
  name : String
  samples : List (String × String)
  grader : String → String → Except Exn ℚ

/-- What is kept of one sample. -/
structure SampleResult where
  prompt : String
  expected : String
  output : String
  score : ℚ
  latencyMs : ℚ
  result : PipelineResult

/-- A KPI report, with the field that the runner attaches. -/
structure TaskReport extends KPIReport where
  taskName : String
deriving DecidableEq

/-- Result of running one task. -/
structure BenchmarkRunResult where
  taskName : String
  perSample : List SampleResult := []
  avgAccuracy : ℚ := 0
  totalTokens : ℤ := 0
  totalCostUsd : ℚ := 0
  totalLatencyMs : ℚ := 0
  paramsInvokedM : ℕ := 0
  distinctParamsM : ℕ := 0
  kpiReport : Option TaskReport := none

/-- What the loop adds for one sample. -/
def BenchmarkRunResult.add (r : BenchmarkRunResult) (x : SampleResult) : BenchmarkRunResult :=
  { r with
    perSample := r.perSample ++ [x]
    avgAccuracy := r.avgAccuracy + x.score
    totalTokens := r.totalTokens + x.result.metrics.totalTokens
    totalCostUsd := r.totalCostUsd + x.result.metrics.totalCostUsd
    totalLatencyMs := r.totalLatencyMs + x.result.metrics.totalLatencyMs
    paramsInvokedM := r.paramsInvokedM + x.result.metrics.totalParamsInvokedM }

/-- `BenchmarkRunner`. The pipeline is its `run`, a program over some state. -/
structure BenchmarkRunner (ω : Type) where
  run : String → Kwargs → EStateM Exn ω PipelineResult
  baseline : BaselineMetrics := {}
  kpis : KPIs := {}

namespace BenchmarkRunner

variable {ω : Type} (runner : BenchmarkRunner ω) (task : BenchmarkTask)

/-- One iteration of the loop. The loop variables are `result` and `last_pipeline_result`. -/
def runSample (maxTokens : ℤ) (st : BenchmarkRunResult × Option PipelineResult)
    (sample : String × String) : EStateM Exn ω (BenchmarkRunResult × Option PipelineResult) := do
  let pr ← runner.run sample.1 { maxTokens := some maxTokens }
  let score ← liftExcept (task.grader pr.output sample.2)
  let x : SampleResult :=
    { prompt := sample.1
      expected := sample.2
      output := pr.output
      score
      latencyMs := pr.metrics.totalLatencyMs
      result := pr }
  pure (st.1.add x, some pr)

/-- What `run_task` does behind the loop. -/
def report (result : BenchmarkRunResult) (last : Option PipelineResult) : BenchmarkRunResult :=
  let n := task.samples.length
  let avgAccuracy := if 0 < n then result.avgAccuracy / n else result.avgAccuracy
  let distinctParamsM :=
    match last with
    | some pr => pr.metrics.distinctParamsInvokedM
    | none => result.distinctParamsM
  { result with
    avgAccuracy
    distinctParamsM
    kpiReport := some
      { runner.kpis.compute result.totalTokens result.totalCostUsd result.totalLatencyMs
          avgAccuracy result.paramsInvokedM distinctParamsM runner.baseline n with
        taskName := task.name } }

/-- `run_task`. -/
def runTask (maxTokens : ℤ := 256) : EStateM Exn ω BenchmarkRunResult := do
  let (result, last) ←
    task.samples.foldlM (runner.runSample task maxTokens) ({ taskName := task.name }, none)
  pure (runner.report task result last)

end BenchmarkRunner

/-! ## What the loop adds up -/

namespace BenchmarkRunResult

/-- Two results that differ at most in the order of their samples, in the distinct parameters and in
the report. -/
structure SameTotals (r r' : BenchmarkRunResult) : Prop where
  taskName : r'.taskName = r.taskName
  perSample : r'.perSample.Perm r.perSample
  avgAccuracy : r'.avgAccuracy = r.avgAccuracy
  totalTokens : r'.totalTokens = r.totalTokens
  totalCostUsd : r'.totalCostUsd = r.totalCostUsd
  totalLatencyMs : r'.totalLatencyMs = r.totalLatencyMs
  paramsInvokedM : r'.paramsInvokedM = r.paramsInvokedM

variable {r : BenchmarkRunResult} {xs ys : List SampleResult}

/-- Every sample is listed, in its order. -/
theorem perSample_foldl (r : BenchmarkRunResult) (xs : List SampleResult) :
    (xs.foldl add r).perSample = r.perSample ++ xs := by
  induction xs generalizing r with
  | nil => rw [List.foldl_nil, List.append_nil]
  | cons x xs ih =>
    rw [List.foldl_cons, ih, add, List.append_assoc]
    rfl

/-- A field that every sample adds to does not depend on their order. -/
theorem field_foldl {M : Type} [AddCommMonoid M] {field : BenchmarkRunResult → M}
    {amount : SampleResult → M} (hadd : ∀ r x, field (r.add x) = field r + amount x)
    (r : BenchmarkRunResult) (xs : List SampleResult) :
    field (xs.foldl add r) = field r + (xs.map amount).sum := by
  induction xs generalizing r with
  | nil => simp
  | cons x xs ih => rw [List.foldl_cons, ih, hadd, List.map_cons, List.sum_cons, add_assoc]

/-- What is added up does not depend on the order. -/
theorem field_foldl_perm {M : Type} [AddCommMonoid M] {field : BenchmarkRunResult → M}
    {amount : SampleResult → M} (hadd : ∀ r x, field (r.add x) = field r + amount x)
    (r : BenchmarkRunResult) (h : ys.Perm xs) :
    field (ys.foldl add r) = field (xs.foldl add r) := by
  rw [field_foldl hadd, field_foldl hadd, (h.map amount).sum_eq]

/-- A field that no sample changes is the same behind the loop. -/
theorem kept_foldl {β : Type} {field : BenchmarkRunResult → β}
    (hadd : ∀ r x, field (r.add x) = field r) (r : BenchmarkRunResult) (xs : List SampleResult) :
    field (xs.foldl add r) = field r := by
  induction xs generalizing r with
  | nil => rfl
  | cons x xs ih => exact (ih (r.add x)).trans (hadd r x)

/-- The totals of samples in another order. -/
theorem sameTotals_foldl (r : BenchmarkRunResult) (h : ys.Perm xs) :
    SameTotals (xs.foldl add r) (ys.foldl add r) where
  taskName := by
    have hkept (zs : List SampleResult) : (zs.foldl add r).taskName = r.taskName :=
      kept_foldl (fun _ _ => rfl) r zs
    rw [hkept, hkept]
  perSample := by
    rw [perSample_foldl, perSample_foldl]
    exact h.append_left _
  avgAccuracy := field_foldl_perm (fun _ _ => rfl) r h
  totalTokens := field_foldl_perm (fun _ _ => rfl) r h
  totalCostUsd := field_foldl_perm (fun _ _ => rfl) r h
  totalLatencyMs := field_foldl_perm (fun _ _ => rfl) r h
  paramsInvokedM := field_foldl_perm (fun _ _ => rfl) r h

end BenchmarkRunResult

/-- From the states of `I`, a run comes to what the prompt alone determines, and stays in `I`. -/
def PromptOnly {ω : Type} (I : ω → Prop) (run : String → Kwargs → EStateM Exn ω PipelineResult)
    (kwargs : Kwargs) (f : String → Except Exn PipelineResult) : Prop :=
  ∀ prompt s, I s → outcome (run prompt kwargs s) = f prompt ∧ I (final (run prompt kwargs s))

/-- What becomes of a sample if the prompt determines the run. -/
def SampleResult.ofSample (task : BenchmarkTask) (f : String → Except Exn PipelineResult)
    (sample : String × String) : Except Exn SampleResult := do
  let pr ← f sample.1
  let score ← task.grader pr.output sample.2
  pure
    { prompt := sample.1
      expected := sample.2
      output := pr.output
      score
      latencyMs := pr.metrics.totalLatencyMs
      result := pr }

namespace BenchmarkRunner

variable {ω : Type} {runner : BenchmarkRunner ω} {task : BenchmarkTask} {maxTokens : ℤ}
  {I : ω → Prop} {f : String → Except Exn PipelineResult}

/-- An iteration raises, or adds what becomes of its sample. -/
theorem runSample_spec (hrun : PromptOnly I runner.run { maxTokens := some maxTokens } f)
    (st : BenchmarkRunResult × Option PipelineResult) (sample : String × String) {s : ω}
    (hs : I s) :
    outcome (runner.runSample task maxTokens st sample s) =
        (do let x ← SampleResult.ofSample task f sample; pure (st.1.add x, some x.result)) ∧
      I (final (runner.runSample task maxTokens st sample s)) := by
  obtain ⟨houtcome, hfinal⟩ := hrun sample.1 s hs
  rw [runSample, SampleResult.ofSample, bind_apply, ← houtcome]
  cases hpr : runner.run sample.1 { maxTokens := some maxTokens } s with
  | error x s₁ =>
    rw [hpr] at hfinal
    exact ⟨rfl, hfinal⟩
  | ok pr s₁ =>
    rw [hpr] at hfinal
    change outcome ((liftExcept (task.grader pr.output sample.2) >>= fun _ => _ :
        EStateM Exn ω (BenchmarkRunResult × Option PipelineResult)) s₁) =
      ((task.grader pr.output sample.2 >>= fun _ => _) >>= _) ∧
        I (final ((liftExcept (task.grader pr.output sample.2) >>= fun _ => _ :
          EStateM Exn ω (BenchmarkRunResult × Option PipelineResult)) s₁))
    cases task.grader pr.output sample.2 with
    | error x => exact ⟨rfl, hfinal⟩
    | ok score => exact ⟨rfl, hfinal⟩

/-- The loop over the samples adds up what each of them gives. -/
theorem foldlM_runSample (hrun : PromptOnly I runner.run { maxTokens := some maxTokens } f)
    (samples : List (String × String)) (st : BenchmarkRunResult × Option PipelineResult) {s : ω}
    (hs : I s) :
    outcome (samples.foldlM (runner.runSample task maxTokens) st s) = (do
      let xs ← samples.mapM (SampleResult.ofSample task f)
      pure (xs.foldl .add st.1, (xs.getLast?.map (·.result)).or st.2)) := by
  induction samples generalizing st s with
  | nil => rfl
  | cons sample samples ih =>
    obtain ⟨houtcome, hfinal⟩ := @runSample_spec _ _ task _ _ _ hrun st sample _ hs
    rw [List.foldlM_cons, outcome_bind, houtcome, List.mapM_cons]
    cases SampleResult.ofSample task f sample with
    | error e => rfl
    | ok x =>
      -- the state after the sample keeps the invariant, which `ih` needs
      show outcome (samples.foldlM (runner.runSample task maxTokens) (st.1.add x, some x.result)
        (final (runner.runSample task maxTokens st sample s))) = _
      rw [ih _ hfinal]
      cases samples.mapM (SampleResult.ofSample task f) with
      | error e => rfl
      | ok xs =>
        show Except.ok _ = Except.ok _
        rw [List.foldl_cons]
        cases xs with
        | nil => rfl
        | cons y ys =>
          rw [List.getLast?_cons_cons]
          cases hlast : (y :: ys).getLast? with
          | none => simp at hlast
          | some last => rfl

/-- A task raises, or reports what becomes of its samples. -/
theorem outcome_runTask (hrun : PromptOnly I runner.run { maxTokens := some maxTokens } f)
    {s : ω} (hs : I s) :
    outcome (runner.runTask task maxTokens s) = (do
      let xs ← task.samples.mapM (SampleResult.ofSample task f)
      pure (runner.report task (xs.foldl .add { taskName := task.name })
        (xs.getLast?.map (·.result)))) := by
  rw [runTask, outcome_bind, foldlM_runSample hrun _ _ hs]
  cases task.samples.mapM (SampleResult.ofSample task f) with
  | error e => rfl
  | ok xs =>
    show Except.ok _ = Except.ok _
    rw [Option.or_none]

end BenchmarkRunner

/-! ## Samples in another order -/

/-- Every sample is answered, and its output graded. -/
def BenchmarkTask.Graded (task : BenchmarkTask) (f : String → Except Exn PipelineResult) : Prop :=
  ∀ sample ∈ task.samples, ∃ x, SampleResult.ofSample task f sample = .ok x

/-- The distinct parameters of the run that the prompt of the last sample determines. -/
def lastDistinct (f : String → Except Exn PipelineResult) (samples : List (String × String)) : ℕ :=
  match samples.getLast? with
  | none => 0
  | some sample =>
    match f sample.1 with
    | .ok pr => pr.metrics.distinctParamsInvokedM
    | .error _ => 0

/-- A result holds the run that the prompt determines. -/
theorem SampleResult.run_of_ofSample {task : BenchmarkTask} {f : String → Except Exn PipelineResult}
    {sample : String × String} {x : SampleResult} (h : ofSample task f sample = .ok x) :
    f sample.1 = .ok x.result := by
  obtain ⟨pr, hpr, hscore⟩ := except_bind_eq_ok.mp h
  obtain ⟨score, -, hpure⟩ := except_bind_eq_ok.mp hscore
  cases hpure
  exact hpr

/-- The last result is that of the last sample. -/
theorem lastDistinct_eq {task : BenchmarkTask} {f : String → Except Exn PipelineResult}
    {samples : List (String × String)} {xs : List SampleResult}
    (h : samples.mapM (SampleResult.ofSample task f) = .ok xs) :
    lastDistinct f samples =
      (xs.getLast?.map (·.result.metrics.distinctParamsInvokedM)).getD 0 := by
  have hall := except_mapM_eq_ok.mp h
  clear h
  cases hall with
  | nil => rfl
  | @cons sample x samples xs hx hall =>
    -- the sample in front is the last one where nothing follows it
    induction hall generalizing sample x with
    | nil => simp [lastDistinct, SampleResult.run_of_ofSample hx]
    | cons hx' _ ih =>
      rw [lastDistinct, List.getLast?_cons_cons, List.getLast?_cons_cons]
      exact ih hx'

/-- A report for another number of distinct parameters. -/
def TaskReport.withDistinct (kpi : TaskReport) (kpis : KPIs) (baseline : BaselineMetrics)
    (distinct : ℕ) : TaskReport :=
  let epu : ℚ := if 0 < distinct then baseline.paramsM / distinct else 0
  { kpi with
    chenDistinctParamsM := distinct
    epu
    epuTargetMet := kpis.epuTarget ≤ epu }

namespace BenchmarkRunner

variable {ω : Type} {runner : BenchmarkRunner ω} {task : BenchmarkTask} {maxTokens : ℤ}
  {I : ω → Prop} {f : String → Except Exn PipelineResult}

/-- The report that a run of a task attaches, if it returns. -/
def reported (run : EStateM.Result Exn ω BenchmarkRunResult) : Option TaskReport :=
  (outcome run).toOption.bind (·.kpiReport)

/-- The report of what the loop added up, for a number of distinct parameters. -/
def reportOf (runner : BenchmarkRunner ω) (task : BenchmarkTask) (r : BenchmarkRunResult)
    (distinct : ℕ) : TaskReport :=
  let n := task.samples.length
  { runner.kpis.compute r.totalTokens r.totalCostUsd r.totalLatencyMs
      (if 0 < n then r.avgAccuracy / n else r.avgAccuracy) r.paramsInvokedM distinct runner.baseline
      n with
    taskName := task.name }

/-- The distinct parameters enter a report by themselves, by the utilization and by its target. -/
theorem reportOf_withDistinct (r : BenchmarkRunResult) (distinct distinct' : ℕ) :
    (runner.reportOf task r distinct).withDistinct runner.kpis runner.baseline distinct' =
      runner.reportOf task r distinct' :=
  rfl

/-- The distinct parameters can be read off the report. -/
theorem reportOf_inj {r : BenchmarkRunResult} {distinct distinct' : ℕ} :
    runner.reportOf task r distinct = runner.reportOf task r distinct' ↔ distinct = distinct' :=
  ⟨congrArg fun kpi => (kpi : TaskReport).chenDistinctParamsM, congrArg _⟩

/-- The rest of a report is made of what does not depend on the order. -/
theorem reportOf_perm {samples : List (String × String)} (hperm : samples.Perm task.samples)
    {r r' : BenchmarkRunResult} (h : r.SameTotals r') (distinct : ℕ) :
    runner.reportOf { task with samples } r' distinct = runner.reportOf task r distinct := by
  simp only [reportOf, hperm.length_eq, h.avgAccuracy, h.totalTokens, h.totalCostUsd,
    h.totalLatencyMs, h.paramsInvokedM]

/-- A task that does not raise reports its totals with the distinct parameters of its last run. -/
theorem reported_runTask (hrun : PromptOnly I runner.run { maxTokens := some maxTokens } f)
    {s : ω} (hs : I s) {xs : List SampleResult}
    (hxs : task.samples.mapM (SampleResult.ofSample task f) = .ok xs) :
    reported (runner.runTask task maxTokens s) =
      some (runner.reportOf task (xs.foldl .add { taskName := task.name })
        (lastDistinct f task.samples)) := by
  have hzero : (xs.foldl BenchmarkRunResult.add { taskName := task.name }).distinctParamsM = 0 :=
    BenchmarkRunResult.kept_foldl (fun _ _ => rfl) _ xs
  rw [reported, outcome_runTask hrun hs, hxs, lastDistinct_eq hxs]
  show some _ = some _
  rw [reportOf]
  cases xs.getLast? with
  | none => simp only [Option.map_none, hzero, Option.getD_none]
  | some x => rfl

/-- A task that is not graded throughout raises. -/
theorem reported_eq_none (hrun : PromptOnly I runner.run { maxTokens := some maxTokens } f)
    {s : ω} (hs : I s) (h : ¬ task.Graded f) : reported (runner.runTask task maxTokens s) = none := by
  rw [reported, outcome_runTask hrun hs]
  cases hxs : task.samples.mapM (SampleResult.ofSample task f) with
  | error x => rfl
  | ok xs => exact absurd (except_returns_of_mapM hxs) h

/-- Samples in another order leave the report of a task as it is if and only if the run of the
sample that comes last has the same distinct parameters, or the task raises. The order changes
nothing else of the report than what is made of these. -/
theorem reported_perm_iff (hrun : PromptOnly I runner.run { maxTokens := some maxTokens } f)
    {samples : List (String × String)} (hperm : samples.Perm task.samples) {s s' : ω} (hs : I s)
    (hs' : I s') :
    (reported (runner.runTask { task with samples } maxTokens s') =
        reported (runner.runTask task maxTokens s) ↔
      (task.Graded f → lastDistinct f samples = lastDistinct f task.samples)) ∧
    (task.Graded f → ∃ kpi, reported (runner.runTask task maxTokens s) = some kpi ∧
      kpi.chenDistinctParamsM = lastDistinct f task.samples ∧
      reported (runner.runTask { task with samples } maxTokens s') =
        some (kpi.withDistinct runner.kpis runner.baseline (lastDistinct f samples))) := by
  by_cases hgraded : task.Graded f
  · obtain ⟨xs, hxs, -⟩ := except_mapM_returns hgraded
    obtain ⟨ys, hys, hyx⟩ := except_mapM_perm hperm hxs
    have hkpi := reported_runTask hrun hs hxs
    -- The totals are sums, so the order of the samples does not show in them.
    have hkpi' : reported (runner.runTask { task with samples } maxTokens s') =
        some (runner.reportOf task (xs.foldl .add { taskName := task.name })
          (lastDistinct f samples)) := by
      rw [@reported_runTask _ runner { task with samples } _ _ _ hrun _ hs' ys hys,
        reportOf_perm hperm (BenchmarkRunResult.sameTotals_foldl { taskName := task.name } hyx)]
    refine ⟨?_, fun _ => ⟨_, hkpi, rfl, ?_⟩⟩
    · rw [hkpi, hkpi', Option.some_inj, reportOf_inj]
      exact ⟨fun h _ => h, fun h => h hgraded⟩
    · rw [hkpi', reportOf_withDistinct]
  · have hgraded' : ¬ BenchmarkTask.Graded { task with samples } f := fun h =>
      hgraded fun sample hsample => h sample (hperm.mem_iff.mpr hsample)
    refine ⟨?_, fun h => absurd h hgraded⟩
    rw [reported_eq_none hrun hs hgraded, reported_eq_none hrun hs' hgraded']
    exact ⟨fun _ h => absurd h hgraded, fun _ => rfl⟩

/-- Phase 3 over two experts of which the prompt chooses one, without memory. -/
def choosing : RoutingPipeline Unit where
  toPipeline := duo { paramsM := 1 } { paramsM := 2 }
  router := ⟨some "choosing", fun prompt _ => .ok [if prompt = "p" then "a" else "b"]⟩
  handoff := .text
  writeIntermediateToMemory := false
  memoryRetrieveK := 0

/-- Where the clock stands still, a run of this pipeline depends on its prompt alone. -/
theorem promptOnly_choosing (kwargs : Kwargs) :
    PromptOnly (fun s : RunState Unit NoMemory => s.clock = fun _ => 0) choosing.run kwargs
      fun prompt => outcome (choosing.run prompt kwargs idle) := by
  rintro prompt ⟨⟨⟩, ⟨⟩, clock, ticks, calls⟩ hclock
  cases hclock
  by_cases hp : prompt = "p"
  · subst hp
    exact ⟨rfl, rfl⟩
  · have hselect : choosing.selectNames prompt = .ok ["b"] := by
      simp [choosing, RoutingPipeline.selectNames, hp]
      rfl
    show outcome (choosing.run prompt kwargs ⟨(), NoMemory.mk, fun _ => 0, ticks, calls⟩) =
        outcome (choosing.run prompt kwargs idle) ∧
      (final (choosing.run prompt kwargs ⟨(), NoMemory.mk, fun _ => 0, ticks, calls⟩)).clock =
        fun _ => 0
    unfold RoutingPipeline.run
    rw [hselect]
    exact ⟨rfl, rfl⟩

/-- A task with one sample for each expert. -/
def bothExperts : BenchmarkTask where
  name := "both"
  samples := [("p", ""), ("q", "")]
  grader _ _ := .ok 1

/-- A task with two samples for the second expert. -/
def sameExpert : BenchmarkTask where
  name := "same"
  samples := [("q", ""), ("r", "")]
  grader _ _ := .ok 1

/-- A runner of the pipeline that chooses. -/
def chooser : BenchmarkRunner (RunState Unit NoMemory) := { run := choosing.run }

/-- Two samples for one expert: their order does not matter. -/
theorem reported_perm_iff_same :
    reported (chooser.runTask { sameExpert with samples := [("r", ""), ("q", "")] } 256 idle) =
      reported (chooser.runTask sameExpert 256 idle) := by
  refine (@reported_perm_iff _ chooser sameExpert _ _ _ (promptOnly_choosing _) [("r", ""), ("q", "")]
    (List.Perm.swap _ _ _) idle idle rfl rfl).1.mpr fun _ => ?_
  decide

/-- The sample that comes last decides what is reported as the distinct parameters. -/
theorem reported_chooser :
    ((outcome (chooser.runTask bothExperts 256 idle)).toOption.bind (·.kpiReport)).map
        (fun kpi => (kpi.chenDistinctParamsM, kpi.epu)) = some (2, 35000) ∧
      ((outcome (chooser.runTask { bothExperts with samples := [("q", ""), ("p", "")] } 256
        idle)).toOption.bind (·.kpiReport)).map
        (fun kpi => (kpi.chenDistinctParamsM, kpi.epu)) = some (1, 70000) := by
  decide +kernel

/-- The order of the samples can change the report. -/
theorem not_order_free :
    ¬ ∀ (ω : Type) (runner : BenchmarkRunner ω) (task : BenchmarkTask) (maxTokens : ℤ)
        (I : ω → Prop) (f : String → Except Exn PipelineResult)
        (samples : List (String × String)) (s s' : ω) (r r' : BenchmarkRunResult),
      PromptOnly I runner.run { maxTokens := some maxTokens } f → samples.Perm task.samples →
      I s → I s' → outcome (runner.runTask task maxTokens s) = .ok r →
      outcome (runner.runTask { task with samples } maxTokens s') = .ok r' →
      r'.kpiReport = r.kpiReport := by
  intro h
  obtain ⟨hpq, hqp⟩ := reported_chooser
  cases hr : outcome (chooser.runTask bothExperts 256 idle) with
  | error x =>
    rw [hr] at hpq
    cases hpq
  | ok r =>
    cases hr' : outcome (chooser.runTask { bothExperts with samples := [("q", ""), ("p", "")] } 256
        idle) with
    | error x =>
      rw [hr'] at hqp
      cases hqp
    | ok r' =>
      have hkpi : r'.kpiReport = r.kpiReport :=
        h _ chooser bothExperts 256 _ _ [("q", ""), ("p", "")] idle idle r r'
          (promptOnly_choosing _) (List.Perm.swap _ _ _) rfl rfl hr hr'
      rw [hr, Except.toOption, Option.bind_some] at hpq
      rw [hr', Except.toOption, Option.bind_some, hkpi, hpq] at hqp
      cases hqp

end BenchmarkRunner

end Chen
