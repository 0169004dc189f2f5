import Chen.Core.Timing
import Chen.Phases.Runs

/-!
# Phases that compute the same

Without memory retrieval, phases 2 and 3 are one machine, and all three phases are one machine as
long as the run stays on text. Both are shown by running the two loops side by side.
-/

namespace Chen

open Effect

variable {σ μ : Type}

/-! ## Loop variables of two runs -/

/-- The loop variables of two runs agree up to timings. -/
structure SameProgress (a b : Progress) : Prop where
  metrics : a.metrics.untimed = b.metrics.untimed
  perExpert : a.perExpert.map ExpertMetrics.untimed = b.perExpert.map ExpertMetrics.untimed
  currentText : a.currentText = b.currentText
  kwargs : a.kwargs = b.kwargs

/-- The same, for the phases that hand caches over. -/
structure SameHandoff (a b : HandoffProgress) : Prop
    extends SameProgress a.toProgress b.toProgress where
  currentCache : a.currentCache = b.currentCache
  textMode : a.textMode = b.textMode

/-- Two iterations computed the same invocation. -/
structure SameInvocation (a b : Invocation) : Prop where
  output : a.output = b.output
  outCache : a.outCache = b.outCache
  metrics : a.metrics.untimed = b.metrics.untimed
  currentCache : a.currentCache = b.currentCache
  textMode : a.textMode = b.textMode
  entriesRead : a.entriesRead = b.entriesRead

/-- Two loops begin alike. -/
theorem SameProgress.start (cost : CostModel) (prompt : String) (kwargs : Kwargs) :
    SameProgress { metrics := { cost }, currentText := prompt, kwargs }
      { metrics := { cost }, currentText := prompt, kwargs } :=
  ⟨rfl, rfl, rfl, rfl⟩

section Memory

variable [Memory μ] {M : μ → μ → Prop}

/-- Writing to memory takes two runs to the same. -/
theorem writeMemory_simulates {x y : MemoryEntry}
    (h : ∀ m n, M m n → M (Memory.write x m).2 (Memory.write y n).2) :
    Simulates (SameRun M) (fun _ _ => True) (writeMemory x : Run σ μ Unit) (writeMemory y) :=
  fun _ _ hst => ⟨⟨hst.world, hst.calls, h _ _ hst.memory⟩, .ok trivial⟩

/-- So does writing the prompt. -/
theorem writePrompt_simulates (enabled : Bool) (prompt : String)
    (h : ∀ x m n, M m n → M (Memory.write x m).2 (Memory.write x n).2) :
    Simulates (SameRun M) (fun _ _ => True) (writePrompt enabled prompt : Run σ μ Unit)
      (writePrompt enabled prompt) := by
  unfold writePrompt
  split
  · exact writeMemory_simulates (h _)
  · exact Simulates.pure trivial

/-- Without retrieval, `_invoke_expert` is `invoke` on the prompt. -/
theorem invokeExpert_zero (e : Expert σ) (text : String) (maxTokens : ℤ) :
    (invokeExpert e (some text) none maxTokens 0 :
      Run σ μ (String × Option KVCache × ExpertMetrics)) = e.invokeText text maxTokens := by
  funext s
  rfl

/-- With `k = 0` nothing is retrieved. -/
theorem retrieveContext_zero (prompt : String) :
    (retrieveContext 0 prompt : Run σ μ (String × ℤ)) = pure (prompt, 0) := by
  funext s
  rfl

/-! ## Iterations of phases 2 and 3 -/

/-- A step behind the first takes two runs to the same. -/
theorem handOver_simulates (e : Expert σ) (fallback : Bool) (maxTokens : ℤ)
    {a b : HandoffProgress} (hab : SameHandoff a b) :
    Simulates (SameRun M) SameInvocation (handOver e fallback maxTokens a : Run σ μ Invocation)
      (handOver e fallback maxTokens b) := by
  unfold handOver
  rw [← hab.textMode, ← hab.currentCache, ← hab.currentText]
  split
  · rename_i cache _ _
    refine (e.invoke_simulates none (some cache) maxTokens).bind ?_
    rintro ⟨output, outCache, m⟩ ⟨_, _, m'⟩ ⟨rfl, rfl, hm⟩
    have hok : m.cacheTransferSucceeded = m'.cacheTransferSucceeded :=
      (congrArg ExpertMetrics.cacheTransferSucceeded hm : m.untimed.cacheTransferSucceeded = _)
    simp only [hok]
    split
    · exact Simulates.pure ⟨rfl, rfl, hm, rfl, rfl, rfl⟩
    · split
      · rw [invokeExpert_zero]
        refine (e.invokeText_simulates a.currentText maxTokens).bind ?_
        rintro ⟨output, outCache, m⟩ ⟨_, _, m'⟩ ⟨rfl, rfl, hm⟩
        exact Simulates.pure ⟨rfl, rfl, hm, rfl, rfl, rfl⟩
      · exact Simulates.throw _
  · rw [invokeExpert_zero]
    refine (e.invokeText_simulates a.currentText maxTokens).bind ?_
    rintro ⟨output, outCache, m⟩ ⟨_, _, m'⟩ ⟨rfl, rfl, hm⟩
    exact Simulates.pure ⟨rfl, rfl, hm, rfl, rfl, rfl⟩

/-- So does recording it. -/
theorem recordHandoff_simulates (e : Expert σ) (isLast write : Bool) (kwargs : Kwargs)
    (h : ∀ x m n, M m n → M (Memory.write x m).2 (Memory.write x n).2)
    {a b : HandoffProgress} (hab : SameHandoff a b) {i j : Invocation} (hij : SameInvocation i j) :
    Simulates (SameRun M) SameHandoff
      (recordHandoff e isLast write kwargs a i : Run σ μ HandoffProgress)
      (recordHandoff e isLast write kwargs b j) := by
  have hmetrics := AggregateMetrics.untimed_add hab.metrics hij.metrics
  have hper : (a.perExpert ++ [i.metrics]).map ExpertMetrics.untimed =
      (b.perExpert ++ [j.metrics]).map ExpertMetrics.untimed := by
    rw [List.map_append, List.map_append, hab.perExpert, List.map_singleton, List.map_singleton,
      hij.metrics]
  unfold recordHandoff
  rw [hij.entriesRead, hij.currentCache, hab.currentText]
  cases write with
  | true =>
    refine (writeMemory_simulates (h _)).bind fun _ _ _ => Simulates.pure ?_
    exact ⟨⟨congrArg (fun u => { u with
      memoryEntriesRead := u.memoryEntriesRead + j.entriesRead
      memoryEntriesWritten := u.memoryEntriesWritten + 1 }) hmetrics, hper, hij.output, rfl⟩,
      hij.outCache, hij.textMode⟩
  | false =>
    refine Simulates.pure ?_
    exact ⟨⟨congrArg (fun u => { u with
      memoryEntriesRead := u.memoryEntriesRead + j.entriesRead }) hmetrics, hper, hij.output, rfl⟩,
      hij.outCache, hij.textMode⟩

end Memory

/-! ## Experts that always infer -/

/-- `generate` and `decode` return, whatever the world. -/
structure Expert.Reliable (e : Expert σ) : Prop where
  generate : ∀ prompt maxTokens, Total (e.backend.generate prompt maxTokens)
  decode : ∀ cache maxTokens, Total (e.backend.decode cache maxTokens)

namespace Expert

/-- A backend call always returns if the backend does. -/
theorem call_total {α : Type} (e : Expert σ) {op : Except Exn α → Op} {act : EStateM Exn σ α}
    (h : Total act) : Total (e.call op act : Run σ μ α) := by
  intro s
  obtain ⟨a, w, hact⟩ := h s.world
  exact ⟨a, _, by rw [call, hact]⟩

/-- So does a timed program. -/
theorem timed_total {α : Type} {x : Run σ μ α} (h : Total x) : Total (timed x) := by
  have htick : Total (perfCounter : Run σ μ ℚ) := fun s => ⟨_, _, rfl⟩
  exact htick.bind fun _ => h.bind fun _ => htick.bind fun _ => Total.pure _

variable {e : Expert σ}

/-- The end of an `invoke` always returns. -/
theorem conclude_total (text output : String) (latencyMs cacheTransferMs : ℚ)
    (usedKV succeeded : Bool) :
    Total (e.conclude text output latencyMs cacheTransferMs usedKV succeeded :
      Run σ μ (String × Option KVCache × ExpertMetrics)) := by
  have hcache : Total (e.outputCache text output : Run σ μ (Option KVCache)) := by
    unfold outputCache
    split
    · refine (Total.attempt _).bind fun r => ?_
      cases r with
      | ok cache => exact Total.pure _
      | error x => exact Total.pure _
    · exact Total.pure _
  have htoks : Total (e.meterTokens text output : Run σ μ (ℤ × ℤ)) := by
    unfold meterTokens
    cases e.backend.countTokens with
    | none => exact Total.pure _
    | some count =>
      refine (Total.attempt _).bind fun r => ?_
      cases r with
      | ok toks => exact Total.pure _
      | error x => exact Total.pure _
  exact hcache.bind fun _ => htoks.bind fun _ => Total.pure _

/-- A reliable expert answers every text. -/
theorem Reliable.invokeText_total (h : e.Reliable) (text : String) (maxTokens : ℤ) :
    Total (e.invokeText text maxTokens : Run σ μ (String × Option KVCache × ExpertMetrics)) :=
  (timed_total (e.call_total (h.generate _ _))).bind fun _ => conclude_total _ _ _ _ _ _

/-- It answers every cache. -/
theorem Reliable.invokeCache_total (h : e.Reliable) (cache : KVCache) (maxTokens : ℤ) :
    Total (e.invokeCache cache maxTokens :
      Run σ μ (String × Option KVCache × ExpertMetrics)) := by
  refine (timed_total (Total.attempt _)).bind fun r => ?_
  obtain ⟨r, ms⟩ := r
  cases r with
  | ok cache' =>
    exact (timed_total (e.call_total (h.decode _ _))).bind fun _ => conclude_total _ _ _ _ _ _
  | error x =>
    exact (timed_total (e.call_total (h.generate _ _))).bind fun _ => conclude_total _ _ _ _ _ _

/-- Every `invoke` of it returns. -/
theorem Reliable.invoke_total (h : e.Reliable) (cache : KVCache) (maxTokens : ℤ) :
    Total (e.invoke none (some cache) maxTokens :
      Run σ μ (String × Option KVCache × ExpertMetrics)) := by
  rw [invoke_cache]
  split
  · exact h.invokeCache_total cache maxTokens
  · exact h.invokeText_total cache.sourceText maxTokens

end Expert

/-! ## The first step of phases 2 and 3 -/

section First

variable [Memory μ] {M : μ → μ → Prop}

/-- Without retrieval, the first step of phase 2 is an encoding and an invocation on what it
left. -/
theorem KVPassPipeline.first_eq {p : KVPassPipeline σ} (hk : p.memoryRetrieveK = 0)
    (e : Expert σ) (maxTokens : ℤ) (prompt : String) :
    (p.first e maxTokens prompt : Run σ μ Invocation) = (do
      match ← encodePrompt e prompt with
      | none =>
        let (output, outCache, m) ← e.invokeText prompt maxTokens
        pure { output, outCache, metrics := m, currentCache := none, textMode := true }
      | some cache =>
        let (output, outCache, m) ← e.invoke none (some cache) maxTokens
        pure
          { output, outCache, metrics := m, currentCache := some cache, textMode := false }) := by
  unfold first
  refine bind_congr fun encoded => ?_
  cases encoded with
  | none => rfl
  | some cache =>
    simp only [hk, retrieveContext_zero, pure_bind, reencode, ne_eq, not_true_eq_false, if_false]

/-- The guarded first step of phase 3 does the same for an expert that always infers: nothing but
the encoding can raise inside its `try`. -/
theorem RoutingPipeline.first_eq {p : KVPassPipeline σ} {r : RoutingPipeline σ}
    (hp : p.memoryRetrieveK = 0) (hr : r.memoryRetrieveK = 0) {e : Expert σ} (he : e.Reliable)
    (maxTokens : ℤ) (prompt : String) :
    (r.first e maxTokens prompt false : Run σ μ Invocation) = p.first e maxTokens prompt := by
  rw [KVPassPipeline.first_eq hp]
  unfold first KVPassPipeline.encodePrompt
  cases hkv : e.capabilities.supportsKVCache with
  | false =>
    simp only [Bool.not_false, Bool.and_false, Bool.false_eq_true, if_false, hr,
      invokeExpert_zero, pure_bind]
  | true =>
    simp only [Bool.not_false, Bool.and_true, if_true, hr, retrieveContext_zero, pure_bind,
      invokeExpert_zero]
    funext s
    simp only [bind_apply, attempt]
    cases hencode : (e.encode prompt : Run σ μ KVCache) s with
    | error x s' => rfl
    | ok cache s' =>
      obtain ⟨answer, s'', hanswer⟩ :
          ∃ a s'', (e.invoke none (some cache) maxTokens :
            Run σ μ (String × Option KVCache × ExpertMetrics)) s' = .ok a s'' :=
        he.invoke_total cache maxTokens s'
      simp only [hanswer, pure_apply, outcome_ok, final_ok, bind_apply]

/-- Without memory, the first step is made alike in phases 2 and 3. -/
theorem KVPassPipeline.first_simulates {p : KVPassPipeline σ} (hk : p.memoryRetrieveK = 0)
    (e : Expert σ) (maxTokens : ℤ) (prompt : String) :
    Simulates (SameRun M) SameInvocation (p.first e maxTokens prompt : Run σ μ Invocation)
      (p.first e maxTokens prompt) := by
  have hencode : Simulates (SameRun M) (· = ·)
      (encodePrompt e prompt : Run σ μ (Option KVCache)) (encodePrompt e prompt) := by
    unfold encodePrompt
    split
    · refine (e.call_simulates _ _).attempt.bind fun a b hab => ?_
      cases hab with
      | ok h => exact Simulates.pure (congrArg some h)
      | error x => exact Simulates.pure rfl
    · exact Simulates.pure rfl
  rw [first_eq hk]
  refine hencode.bind fun encoded _ hencoded => ?_
  subst hencoded
  cases encoded with
  | none =>
    refine (e.invokeText_simulates prompt maxTokens).bind ?_
    rintro ⟨output, outCache, m⟩ ⟨_, _, m'⟩ ⟨rfl, rfl, hm⟩
    exact Simulates.pure ⟨rfl, rfl, hm, rfl, rfl, rfl⟩
  | some cache =>
    refine (e.invoke_simulates none (some cache) maxTokens).bind ?_
    rintro ⟨output, outCache, m⟩ ⟨_, _, m'⟩ ⟨rfl, rfl, hm⟩
    exact Simulates.pure ⟨rfl, rfl, hm, rfl, rfl, rfl⟩

/-- The first step of a reliable expert returns. -/
theorem KVPassPipeline.first_total {p : KVPassPipeline σ} (hk : p.memoryRetrieveK = 0)
    {e : Expert σ} (he : e.Reliable) (maxTokens : ℤ) (prompt : String) :
    Total (p.first e maxTokens prompt : Run σ μ Invocation) := by
  have hencode : Total (encodePrompt e prompt : Run σ μ (Option KVCache)) := by
    unfold encodePrompt
    split
    · refine (Total.attempt _).bind fun r => ?_
      cases r with
      | ok cache => exact Total.pure _
      | error x => exact Total.pure _
    · exact Total.pure _
  rw [first_eq hk]
  refine hencode.bind fun encoded => ?_
  cases encoded with
  | none => exact (he.invokeText_total prompt maxTokens).bind fun _ => Total.pure _
  | some cache => exact (he.invoke_total cache maxTokens).bind fun _ => Total.pure _

/-- So does every later one. -/
theorem handOver_total {e : Expert σ} (he : e.Reliable) (maxTokens : ℤ) (st : HandoffProgress) :
    Total (handOver e true maxTokens st : Run σ μ Invocation) := by
  have htext : Total (invokeExpert e (some st.currentText) none maxTokens 0 :
      Run σ μ (String × Option KVCache × ExpertMetrics)) := by
    rw [invokeExpert_zero]
    exact he.invokeText_total st.currentText maxTokens
  unfold handOver
  split
  · rename_i cache _ _
    refine (he.invoke_total cache maxTokens).bind fun a => ?_
    simp only [if_true]
    split
    · exact Total.pure _
    · exact htext.bind fun _ => Total.pure _
  · exact htext.bind fun _ => Total.pure _

end First

/-! ## Phases 2 and 3 are one machine -/

/-- Two pipelines have the same experts and the same settings. -/
structure SameSettings (p q : AnyPipeline σ) : Prop where
  base : p.base = q.base
  maxTokensPerExpert : p.maxTokensPerExpert = q.maxTokensPerExpert
  writeIntermediateToMemory : p.writeIntermediateToMemory = q.writeIntermediateToMemory
  memoryRetrieveK : p.memoryRetrieveK = q.memoryRetrieveK

/-- An expert that is found is returned. -/
theorem Pipeline.getExpert_eq {p : Pipeline σ} {n : String} {e : Expert σ}
    (h : p.find n = some e) : p.getExpert n = .ok e := by
  rw [getExpert, h]

section Handoff

variable [Memory μ] {p : KVPassPipeline σ} {r : RoutingPipeline σ}

/-- An iteration of phase 2 on a known expert. -/
theorem KVPassPipeline.step_eq (prompt : String) (st : HandoffProgress) {n : String} (i : ℕ)
    {e : Expert σ} (hfind : p.find n = some e) :
    (p.step prompt st (n, i) : Run σ μ HandoffProgress) = (do
      let inv ←
        (if i = 0 then p.first e (st.kwargs.maxTokens.getD p.maxTokensPerExpert) prompt
         else handOver e p.fallbackToText (st.kwargs.maxTokens.getD p.maxTokensPerExpert) st)
      recordHandoff e (i + 1 == p.sequence.names.length) p.writeIntermediateToMemory {} st
        inv) := by
  unfold step
  rw [Pipeline.getExpert_eq hfind]
  rfl

/-- An iteration of phase 3 on a known expert. -/
theorem RoutingPipeline.step_eq (prompt : String) (len : ℕ) (st : HandoffProgress) {n : String}
    (i : ℕ) {e : Expert σ} (hfind : r.find n = some e) :
    (r.step prompt len st (n, i) : Run σ μ HandoffProgress) = (do
      let inv ←
        (if i = 0 then
           r.first e (st.kwargs.maxTokens.getD r.maxTokensPerExpert) prompt st.textMode
         else handOver e r.fallbackToText (st.kwargs.maxTokens.getD r.maxTokensPerExpert) st)
      recordHandoff e (i + 1 == len) r.writeIntermediateToMemory {} st inv) := by
  unfold step
  rw [Pipeline.getExpert_eq hfind]
  rfl

/-- One iteration of the two loops, on the same expert. -/
theorem step_simulates (hsame : SameSettings (.kvPass p) (.routing r)) (hk : p.memoryRetrieveK = 0)
    (hfallback : p.fallbackToText = r.fallbackToText) (prompt : String) {n : String} {i : ℕ}
    {e : Expert σ} (hfind : p.find n = some e) (he : e.Reliable) {a b : HandoffProgress}
    (hab : SameHandoff a b) (hfirst : i = 0 → b.textMode = false) :
    Simulates (SameRun (· = ·)) SameHandoff (p.step prompt a (n, i) : Run σ μ HandoffProgress)
      (r.step prompt p.sequence.names.length b (n, i)) := by
  have hbase : p.toPipeline = r.toPipeline := hsame.base
  have hmax : p.maxTokensPerExpert = r.maxTokensPerExpert := hsame.maxTokensPerExpert
  have hwrite : p.writeIntermediateToMemory = r.writeIntermediateToMemory :=
    hsame.writeIntermediateToMemory
  have hr : r.memoryRetrieveK = 0 := hsame.memoryRetrieveK.symm.trans hk
  rw [p.step_eq prompt a i hfind, r.step_eq prompt _ b i (hbase ▸ hfind), ← hwrite, ← hmax,
    ← hfallback, ← hab.kwargs]
  refine Simulates.bind (Q := SameInvocation) ?_ fun inv inv' hinv =>
    recordHandoff_simulates e _ _ _ (by rintro x m _ rfl; rfl) hab hinv
  by_cases hi : i = 0
  · rw [if_pos hi, if_pos hi, hfirst hi, RoutingPipeline.first_eq hk hr he]
    exact KVPassPipeline.first_simulates hk e _ prompt
  · rw [if_neg hi, if_neg hi]
    exact handOver_simulates e _ _ hab

/-- With experts that always infer, phase 2 returns. -/
theorem KVPassPipeline.run_total (hk : p.memoryRetrieveK = 0) (hfallback : p.fallbackToText = true)
    (hreliable : ∀ n ∈ p.sequence.names, ∀ e, p.find n = some e → e.Reliable) (prompt : String)
    (kwargs : Kwargs) : Total (p.run prompt kwargs : Run σ μ PipelineResult) := by
  have hwrite (x : MemoryEntry) : Total (writeMemory x : Run σ μ Unit) := fun s => ⟨(), _, rfl⟩
  have hstep : ∀ item ∈ p.sequence.names.zipIdx, ∀ st,
      Total (p.step prompt st item : Run σ μ HandoffProgress) := by
    rintro ⟨n, i⟩ hitem st
    have hn : n ∈ p.sequence.names := (List.mem_zipIdx hitem).2.2 ▸ List.getElem_mem _
    obtain ⟨e, hfind⟩ := Option.isSome_iff_exists.mp (p.sequence.known n hn)
    have he := hreliable n hn e hfind
    -- With the fallback on, no refused cache ends the step.
    rw [p.step_eq prompt st i hfind, hfallback]
    refine Total.bind ?_ fun inv => ?_
    · split
      · exact first_total hk he _ prompt
      · exact handOver_total he _ st
    · unfold recordHandoff
      split
      · exact (hwrite _).bind fun _ => Total.pure _
      · exact Total.pure _
  unfold run
  refine Total.bind ?_ fun _ => (Total.foldlM hstep).bind fun st => ?_
  · unfold writePrompt
    split
    · exact hwrite _
    · exact Total.pure _
  · rw [p.toPipeline.getExperts_eq fun n hn => Option.isSome_iff_exists.mp (p.sequence.known n hn)]
    exact Total.pure _

/-- A router's non-empty answer is what runs. -/
theorem RoutingPipeline.selectNames_eq {prompt : String} {names : List String}
    (hroute : r.router.route prompt r.experts = .ok names) (hne : names ≠ []) :
    r.selectNames prompt = .ok names := by
  have hempty : names.isEmpty = false := by simpa using hne
  unfold selectNames
  rw [hroute]
  show (if names.isEmpty then _ else _) = _
  rw [hempty]
  rfl

/-- Two results of the phases that can leave the cache path. -/
structure SameHandoffResult (a b : PipelineResult) : Prop extends SameResult a b where
  textModeFallback : a.metadata.textModeFallback = b.metadata.textModeFallback

/-- Equal progress is finished alike. -/
theorem SameResult.finalize {a b : Progress} (hab : SameProgress a b) (experts : List (Expert σ)) :
    (a.metrics.finalize experts).untimed = (b.metrics.finalize experts).untimed := by
  rw [AggregateMetrics.untimed_finalize, AggregateMetrics.untimed_finalize, hab.metrics]

/-- The two runs, from states that differ in the clock only. -/
theorem run_simulates (hsame : SameSettings (.kvPass p) (.routing r)) (hk : p.memoryRetrieveK = 0)
    (hhandoff : r.handoff = .kvCache) (hfallback : p.fallbackToText = r.fallbackToText)
    (hreliable : ∀ n ∈ p.sequence.names, ∀ e, p.find n = some e → e.Reliable) (prompt : String)
    (kwargs : Kwargs) (hroute : r.router.route prompt r.experts = .ok p.sequence.names) :
    Simulates (SameRun (· = ·)) SameHandoffResult (p.run prompt kwargs : Run σ μ PipelineResult)
      (r.run prompt kwargs) := by
  have hbase : p.toPipeline = r.toPipeline := hsame.base
  have hwrite : p.writeIntermediateToMemory = r.writeIntermediateToMemory :=
    hsame.writeIntermediateToMemory
  unfold KVPassPipeline.run RoutingPipeline.run
  rw [RoutingPipeline.selectNames_eq hroute p.sequence.names_ne, liftExcept_ok, pure_bind, ← hbase,
    ← hwrite]
  refine Simulates.bind (Q := fun _ _ => True)
    (writePrompt_simulates (M := (· = ·)) _ prompt (by rintro x m _ rfl; rfl)) fun _ _ _ => ?_
  refine Simulates.bind (Q := SameHandoff) ?_ fun a b hab => ?_
  · refine Simulates.foldlM_zipIdx ?_ ?_ ?_
    · exact fun _ => ⟨.start _ _ _, rfl, by simp [hhandoff]⟩
    · intro n hn
      obtain ⟨e, hfind⟩ := Option.isSome_iff_exists.mp (p.sequence.known n hn)
      exact step_simulates hsame hk hfallback prompt hfind (hreliable n hn e hfind)
        ⟨.start _ _ _, rfl, by simp [hhandoff]⟩ fun _ => by simp [hhandoff]
    -- Later iterations are made alike, whatever the first one was.
    · intro n hn i hi a b hab
      obtain ⟨e, hfind⟩ := Option.isSome_iff_exists.mp (p.sequence.known n hn)
      exact step_simulates hsame hk hfallback prompt hfind (hreliable n hn e hfind) hab
        fun h => absurd h hi
  · refine (Simulates.liftExcept (Agree.refl _)).bind fun experts _ h => ?_
    subst h
    exact Simulates.pure ⟨⟨hab.currentText, hab.perExpert, SameResult.finalize hab.toSameProgress _,
      rfl⟩, congrArg some hab.textMode⟩

end Handoff

/-- A pipeline has the experts and the costs it was created with. -/
theorem Pipeline.create_ok {experts : List (Expert σ)} {cost : CostModel} {p : Pipeline σ}
    (h : Pipeline.create experts cost = .ok p) : p.experts = experts ∧ p.cost = cost := by
  unfold create at h
  split at h
  · cases h
  · cases h
    exact ⟨rfl, rfl⟩

/-- A sequence that is not empty is kept. -/
theorem ExpertSequence.create_ok {p : Pipeline σ} {cls : String} {sequence : List String}
    {seq : ExpertSequence p} (h : ExpertSequence.create p cls sequence = .ok seq)
    (hne : sequence ≠ []) : seq.names = sequence := by
  have hempty : sequence.isEmpty = false := by simpa using hne
  unfold create at h
  simp only [hempty] at h
  split at h
  · cases h
    rfl
  · cases h

/-- For a non-empty sequence of the pipeline's names, phase 2 over it and phase 3 with a router that
returns it are one machine: both return, with the same calls, memory and results up to timings. -/
theorem KVPassPipeline.agrees_with_routing [Memory μ] (experts : List (Expert σ))
    (cost : CostModel) (sequence : List String) (hne : sequence ≠ []) (maxTokens : ℤ) (write : Bool)
    (router : Router σ) (p : KVPassPipeline σ) (r : RoutingPipeline σ)
    (hp : KVPassPipeline.create experts cost sequence maxTokens write 0 true = .ok p)
    (hr : RoutingPipeline.create experts cost (some router) .kvCache maxTokens write 0 true = .ok r)
    (prompt : String) (hroute : router.route prompt experts = .ok sequence)
    (hreliable : ∀ e ∈ experts, e.Reliable) (kwargs : Kwargs) (s t : RunState σ μ)
    (hst : SameRun (· = ·) s t) :
    ∃ a s' b t', p.run prompt kwargs s = .ok a s' ∧ r.run prompt kwargs t = .ok b t' ∧
      SameRun (· = ·) s' t' ∧ SameHandoffResult a b := by
  obtain ⟨hexperts, hseq, hsame, hk, hhandoff, hfallback, hfr, hrouter⟩ :
      p.experts = experts ∧ p.sequence.names = sequence ∧ SameSettings (.kvPass p) (.routing r) ∧
        p.memoryRetrieveK = 0 ∧ r.handoff = .kvCache ∧ p.fallbackToText = true ∧
        r.fallbackToText = true ∧ r.router = router := by
    unfold KVPassPipeline.create at hp
    unfold RoutingPipeline.create at hr
    cases hbase : Pipeline.create experts cost with
    | error x =>
      rw [hbase] at hp
      cases hp
    | ok base =>
      rw [hbase] at hp hr
      cases hr
      cases hs : ExpertSequence.create base "KVPassPipeline" sequence with
      | error x =>
        simp only [bind, Except.bind, hs] at hp
        cases hp
      | ok seq =>
        simp only [bind, Except.bind, hs] at hp
        cases hp
        exact ⟨(Pipeline.create_ok hbase).1, ExpertSequence.create_ok hs hne, ⟨rfl, rfl, rfl, rfl⟩,
          rfl, rfl, rfl, rfl, rfl⟩
  have hrexperts : r.experts = experts := by
    have hbase : p.toPipeline = r.toPipeline := hsame.base
    rw [← hbase, hexperts]
  have hmem : ∀ n ∈ p.sequence.names, ∀ e, p.find n = some e → e.Reliable := by
    intro n _ e hfind
    have he := List.mem_of_find?_eq_some hfind
    rw [List.mem_reverse, hexperts] at he
    exact hreliable e he
  have hroute' : r.router.route prompt r.experts = .ok p.sequence.names := by
    rw [hrouter, hrexperts, hseq, hroute]
  -- The run of phase 2 returns, and that of phase 3 does the same.
  obtain ⟨a, s', ha⟩ := KVPassPipeline.run_total hk hfallback hmem prompt kwargs s
  obtain ⟨hrun, hagree⟩ := run_simulates hsame hk hhandoff (hfallback.trans hfr.symm) hmem prompt
    kwargs hroute' s t hst
  rw [ha] at hrun hagree
  obtain ⟨b, hb, hab⟩ := hagree.ok_left
  exact ⟨a, s', b, _, ha, eq_ok_of_outcome hb, hrun, hab⟩

/-- Two experts that hand over their caches. -/
theorem KVPassPipeline.agrees_with_routing_duo : ∃ a s' b t',
    (duoKVPass {} {}).run "p" {} idle = .ok a s' ∧
      (duoRouting {} {} .kvCache ["a", "b"]).run "p" {} idle = .ok b t' ∧
      SameRun (· = ·) s' t' ∧ SameHandoffResult a b := by
  refine agrees_with_routing (duo {} {}).experts {} ["a", "b"] (by simp) 256 false
    ⟨some "fixed", fun _ _ => .ok ["a", "b"]⟩ (duoKVPass {} {})
    (duoRouting {} {} .kvCache ["a", "b"]) rfl rfl "p" rfl ?_ {} idle idle ⟨rfl, rfl, rfl⟩
  intro e he
  have hscript : e.backend = Script.backend {} := by
    simp only [duo, List.mem_cons, List.not_mem_nil, or_false] at he
    rcases he with rfl | rfl <;> rfl
  refine ⟨fun text m => ?_, fun cache m => ?_⟩
  · rw [hscript]
    exact Total.pure _
  · rw [hscript]
    exact Total.pure _

/-- An empty sequence means all experts to phase 2, and a fallback expert to phase 3. -/
theorem KVPassPipeline.empty_sequence_disagrees :
    KVPassPipeline.create (duo {} {}).experts {} [] 256 false 0 true = .ok (duoKVPass {} {}) ∧
      RoutingPipeline.create (duo {} {}).experts {} (some ⟨some "fixed", fun _ _ => .ok []⟩)
        .kvCache 256 false 0 true = .ok (duoRouting {} {} .kvCache []) ∧
      ∃ a s', (duoKVPass {} {}).run "p" {} idle = .ok a s' ∧
        ∃ b t', (duoRouting {} {} .kvCache []).run "p" {} idle = .ok b t' ∧
          ¬(a.output = b.output ∧ s'.calls.length = t'.calls.length) := by
  refine ⟨rfl, rfl, ?_⟩
  obtain ⟨a, s', ha, h⟩ := Returned.exists
    (P := fun a s' => Returned
      (fun b t' => ¬(a.output = b.output ∧ s'.calls.length = t'.calls.length))
      ((duoRouting {} {} .kvCache []).run "p" {} idle))
    (r := (duoKVPass {} {}).run "p" {} idle) (by decide +kernel)
  exact ⟨a, s', ha, h.exists⟩

/-! ## All phases are one machine on text -/

/-- Memories are not compared: phase 1 stores what an expert said, phases 2 and 3 what it was
asked. -/
def AnyMemory : μ → μ → Prop := fun _ _ => True

/-- A cascade's loop variables and those of a phase that has left the cache path. -/
structure SameText (a : Progress) (b : HandoffProgress) : Prop
    extends SameProgress a b.toProgress where
  textMode : b.textMode = true

/-- What the phases that hand caches over compute for an expert they give text to. -/
def textInvocation (currentCache : Option KVCache)
    (answer : String × Option KVCache × ExpertMetrics) : Invocation where
  output := answer.1
  outCache := answer.2.1
  metrics := answer.2.2
  currentCache
  textMode := true

section Text

variable [Memory μ]

/-- In text mode the cache at hand is handed over as its text. -/
theorem handOver_text (e : Expert σ) (fallback : Bool) (maxTokens : ℤ) {st : HandoffProgress}
    (hmode : st.textMode = true) :
    (handOver e fallback maxTokens st : Run σ μ Invocation) =
      textInvocation st.currentCache <$> e.invokeText st.currentText maxTokens := by
  unfold handOver
  rw [hmode]
  rfl

/-- Without caches, the first step of phase 2 is made on the text. -/
theorem KVPassPipeline.first_text {p : KVPassPipeline σ} (hk : p.memoryRetrieveK = 0)
    {e : Expert σ} (hkv : e.capabilities.supportsKVCache = false) (maxTokens : ℤ)
    (prompt : String) :
    (p.first e maxTokens prompt : Run σ μ Invocation) =
      textInvocation none <$> e.invokeText prompt maxTokens := by
  rw [first_eq hk]
  unfold encodePrompt
  rw [hkv]
  rfl

/-- So is the first step of phase 3, or with the text handoff. -/
theorem RoutingPipeline.first_text {r : RoutingPipeline σ} (hk : r.memoryRetrieveK = 0)
    {e : Expert σ} {textMode : Bool}
    (hkv : textMode = true ∨ e.capabilities.supportsKVCache = false) (maxTokens : ℤ)
    (prompt : String) :
    (r.first e maxTokens prompt textMode : Run σ μ Invocation) =
      textInvocation none <$> e.invokeText prompt maxTokens := by
  have hoff : (!textMode && e.capabilities.supportsKVCache) = false := by
    rcases hkv with h | h
    · rw [h]
      rfl
    · rw [h, Bool.and_false]
  unfold first
  rw [hoff, hk, invokeExpert_zero]
  rfl

/-- An iteration of the cascade against one that gives the same text to the same expert. -/
theorem text_step_simulates {c : CascadePipeline σ} (hk : c.memoryRetrieveK = 0) {n : String}
    {i : ℕ} {e : Expert σ} (hfind : c.find n = some e) {a : Progress} {b : HandoffProgress}
    (hab : SameProgress a b.toProgress) (cache : Option KVCache) (isLast : Bool) :
    Simulates (SameRun AnyMemory) SameText (c.step a (n, i) : Run σ μ Progress) (do
      let inv ← textInvocation cache <$>
        e.invokeText b.currentText (b.kwargs.maxTokens.getD c.maxTokensPerExpert)
      recordHandoff e isLast c.writeIntermediateToMemory {} b inv) := by
  unfold CascadePipeline.step
  rw [Pipeline.getExpert_eq hfind, liftExcept_ok, pure_bind, ← hab.currentText, ← hab.kwargs,
    map_eq_pure_bind, bind_assoc]
  simp only [hk, invokeExpert_zero, pure_bind]
  refine (e.invokeText_simulates a.currentText _).bind ?_
  rintro ⟨output, outCache, m⟩ ⟨_, _, m'⟩ ⟨rfl, rfl, hm⟩
  have hmetrics := AggregateMetrics.untimed_add hab.metrics hm
  have hper : (a.perExpert ++ [m]).map ExpertMetrics.untimed =
      (b.perExpert ++ [m']).map ExpertMetrics.untimed := by
    rw [List.map_append, List.map_append, hab.perExpert, List.map_singleton, List.map_singleton,
      show m.untimed = m'.untimed from hm]
  unfold recordHandoff
  simp only [textInvocation, Int.add_zero, lt_self_iff_false, if_false]
  cases c.writeIntermediateToMemory with
  | true =>
    refine (writeMemory_simulates fun _ _ _ => trivial).bind fun _ _ _ => Simulates.pure ?_
    exact ⟨⟨congrArg (fun u => { u with
      memoryEntriesWritten := u.memoryEntriesWritten + 1 }) hmetrics, hper, rfl, rfl⟩, rfl⟩
  | false => exact Simulates.pure ⟨⟨hmetrics, hper, rfl, rfl⟩, rfl⟩

/-- The cascade's loop against the loop of a phase whose every step is a text step. -/
theorem text_loop_simulates {c : CascadePipeline σ} (hk : c.memoryRetrieveK = 0) {a : Progress}
    {init : HandoffProgress} (hinit : SameProgress a init.toProgress)
    {step : HandoffProgress → String × ℕ → Run σ μ HandoffProgress}
    (hstep : ∀ n ∈ c.sequence.names, ∀ e, c.find n = some e → ∀ i b,
      (i = 0 → b = init) → (i ≠ 0 → b.textMode = true) →
      ∃ cache isLast, step b (n, i) = (do
        let inv ← textInvocation cache <$>
          e.invokeText b.currentText (b.kwargs.maxTokens.getD c.maxTokensPerExpert)
        recordHandoff e isLast c.writeIntermediateToMemory {} b inv)) :
    Simulates (SameRun AnyMemory) SameText (c.sequence.names.zipIdx.foldlM c.step a)
      (c.sequence.names.zipIdx.foldlM step init) := by
  have hone : ∀ n ∈ c.sequence.names, ∀ i a b, SameProgress a b.toProgress → (i = 0 → b = init) →
      (i ≠ 0 → b.textMode = true) →
      Simulates (SameRun AnyMemory) SameText (c.step a (n, i)) (step b (n, i)) := by
    intro n hn i a b hab hzero hlater
    obtain ⟨e, hfind⟩ := Option.isSome_iff_exists.mp (c.sequence.known n hn)
    obtain ⟨cache, isLast, heq⟩ := hstep n hn e hfind i b hzero hlater
    rw [heq]
    exact text_step_simulates hk hfind hab cache isLast
  refine Simulates.foldlM_zipIdx (fun h => absurd h c.sequence.names_ne) ?_ ?_
  · intro n hn
    exact hone n hn 0 a init hinit (fun _ => rfl) (fun h => absurd rfl h)
  · intro n hn i hi a b hab
    exact hone n hn i a b hab.toSameProgress (fun h => absurd h hi) fun _ => hab.textMode

/-- Phase 2 over backends without KV support is a cascade. -/
theorem KVPassPipeline.text_run_simulates {c : CascadePipeline σ} {p : KVPassPipeline σ}
    (hsame : SameSettings (.cascade c) (.kvPass p)) (hk : c.memoryRetrieveK = 0)
    (hnames : p.sequence.names = c.sequence.names)
    (hkv : ∀ n ∈ c.sequence.names, ∀ e, c.find n = some e → e.capabilities.supportsKVCache = false)
    (prompt : String) (kwargs : Kwargs) :
    Simulates (SameRun AnyMemory) SameResult (c.run prompt kwargs : Run σ μ PipelineResult)
      (p.run prompt kwargs) := by
  have hbase : c.toPipeline = p.toPipeline := hsame.base
  have hmax : c.maxTokensPerExpert = p.maxTokensPerExpert := hsame.maxTokensPerExpert
  have hwrite : c.writeIntermediateToMemory = p.writeIntermediateToMemory :=
    hsame.writeIntermediateToMemory
  have hpk : p.memoryRetrieveK = 0 := hsame.memoryRetrieveK.symm.trans hk
  unfold CascadePipeline.run KVPassPipeline.run
  rw [hnames, ← hbase, ← hwrite]
  refine Simulates.bind (Q := fun _ _ => True)
    (writePrompt_simulates _ prompt fun _ _ _ _ => trivial) fun _ _ _ => ?_
  refine Simulates.bind (Q := SameText) ?_ fun a b hab => ?_
  · refine text_loop_simulates hk (.start _ _ _) ?_
    intro n hn e hfind i b hzero hlater
    rw [p.step_eq prompt b i (hbase ▸ hfind), ← hwrite, ← hmax]
    -- Phase 2 makes its first step in a function of its own.
    by_cases hi : i = 0
    · rw [if_pos hi, first_text hpk (hkv n hn e hfind), hzero hi]
      exact ⟨none, _, rfl⟩
    · rw [if_neg hi, handOver_text e _ _ (hlater hi)]
      exact ⟨b.currentCache, _, rfl⟩
  · refine (Simulates.liftExcept (Agree.refl _)).bind fun experts _ h => ?_
    subst h
    exact Simulates.pure
      ⟨hab.currentText, hab.perExpert, SameResult.finalize hab.toSameProgress _, rfl⟩

/-- Phase 3 is a cascade over the router's answer when it hands text over, or when no backend has
KV support. -/
theorem RoutingPipeline.text_run_simulates {c : CascadePipeline σ} {r : RoutingPipeline σ}
    (hsame : SameSettings (.cascade c) (.routing r)) (hk : c.memoryRetrieveK = 0)
    {prompt : String} (hnames : r.selectNames prompt = .ok c.sequence.names)
    (hkv : r.handoff = .text ∨
      ∀ n ∈ c.sequence.names, ∀ e, c.find n = some e → e.capabilities.supportsKVCache = false)
    (kwargs : Kwargs) :
    Simulates (SameRun AnyMemory) SameResult (c.run prompt kwargs : Run σ μ PipelineResult)
      (r.run prompt kwargs) := by
  have hbase : c.toPipeline = r.toPipeline := hsame.base
  have hmax : c.maxTokensPerExpert = r.maxTokensPerExpert := hsame.maxTokensPerExpert
  have hwrite : c.writeIntermediateToMemory = r.writeIntermediateToMemory :=
    hsame.writeIntermediateToMemory
  have hrk : r.memoryRetrieveK = 0 := hsame.memoryRetrieveK.symm.trans hk
  unfold CascadePipeline.run RoutingPipeline.run
  rw [hnames, liftExcept_ok, pure_bind, ← hbase, ← hwrite]
  refine Simulates.bind (Q := fun _ _ => True)
    (writePrompt_simulates _ prompt fun _ _ _ _ => trivial) fun _ _ _ => ?_
  refine Simulates.bind (Q := SameText) ?_ fun a b hab => ?_
  · refine text_loop_simulates hk (.start _ _ _) ?_
    intro n hn e hfind i b hzero hlater
    rw [r.step_eq prompt _ b i (hbase ▸ hfind), ← hwrite, ← hmax]
    -- So does phase 3.
    by_cases hi : i = 0
    · rw [if_pos hi, hzero hi,
        first_text hrk (hkv.imp (fun h => by simp [h]) fun h => h n hn e hfind)]
      exact ⟨none, _, rfl⟩
    · rw [if_neg hi, handOver_text e _ _ (hlater hi)]
      exact ⟨b.currentCache, _, rfl⟩
  · refine (Simulates.liftExcept (Agree.refl _)).bind fun experts _ h => ?_
    subst h
    exact Simulates.pure
      ⟨hab.currentText, hab.perExpert, SameResult.finalize hab.toSameProgress _, rfl⟩

/-- On text the three phases are one machine. A cascade and a routed run with text handoff whose
router returns the cascade's sequence agree; without KV support, so do phase 2 over that sequence
and a routed run with cache handoff. They end with results that agree up to timings, or raise the
same exception, after the same calls. -/
theorem CascadePipeline.text_runs_agree (c : CascadePipeline σ) (hk : c.memoryRetrieveK = 0)
    (prompt : String) (kwargs : Kwargs) (s t : RunState σ μ) (hst : SameRun AnyMemory s t) :
    (∀ r : RoutingPipeline σ, SameSettings (.cascade c) (.routing r) →
      r.router.route prompt r.experts = .ok c.sequence.names →
      (r.handoff = .text ∨ ∀ n ∈ c.sequence.names, ∀ e, c.find n = some e →
        e.capabilities.supportsKVCache = false) →
      SameRun AnyMemory (final (c.run prompt kwargs s)) (final (r.run prompt kwargs t)) ∧
        Agree SameResult (outcome (c.run prompt kwargs s)) (outcome (r.run prompt kwargs t))) ∧
    (∀ p : KVPassPipeline σ, SameSettings (.cascade c) (.kvPass p) →
      p.sequence.names = c.sequence.names →
      (∀ n ∈ c.sequence.names, ∀ e, c.find n = some e → e.capabilities.supportsKVCache = false) →
      SameRun AnyMemory (final (c.run prompt kwargs s)) (final (p.run prompt kwargs t)) ∧
        Agree SameResult (outcome (c.run prompt kwargs s)) (outcome (p.run prompt kwargs t))) := by
  refine ⟨fun r hsame hroute hkv => ?_, fun p hsame hnames hkv => ?_⟩
  · exact r.text_run_simulates hsame hk (r.selectNames_eq hroute c.sequence.names_ne) hkv kwargs s t
      hst
  · exact p.text_run_simulates hsame hk hnames hkv prompt kwargs s t hst

end Text

/-- A backend without KV support. -/
def textOnly : Script where
  supportsKVCache := false

/-- Two experts, with caches and without. -/
theorem CascadePipeline.text_runs_agree_duo :
    Agree SameResult (outcome ((duoCascade {} {}).run "p" {} idle))
        (outcome ((duoRouting {} {} .text ["a", "b", "a"]).run "p" {} idle)) ∧
      Agree SameResult (outcome ((duoCascade textOnly textOnly).run "p" {} idle))
        (outcome ({ duoKVPass textOnly textOnly with
          sequence := (duoCascade textOnly textOnly).sequence }.run "p" {} idle)) := by
  have hnone : ∀ n ∈ ["a", "b", "a"], ∀ e, (duo textOnly textOnly).find n = some e →
      e.capabilities.supportsKVCache = false := by
    intro n _ e hfind
    have he := List.mem_of_find?_eq_some hfind
    simp only [duo, List.reverse_cons, List.reverse_nil, List.nil_append, List.cons_append,
      List.mem_cons, List.not_mem_nil, or_false] at he
    rcases he with rfl | rfl <;> rfl
  refine ⟨?_, ?_⟩
  · exact ((text_runs_agree (duoCascade {} {}) rfl "p" {} idle idle ⟨rfl, rfl, trivial⟩).1
      (duoRouting {} {} .text ["a", "b", "a"]) ⟨rfl, rfl, rfl, rfl⟩ rfl (.inl rfl)).2
  · exact ((text_runs_agree (duoCascade textOnly textOnly) rfl "p" {} idle idle
      ⟨rfl, rfl, trivial⟩).2 { duoKVPass textOnly textOnly with
        sequence := (duoCascade textOnly textOnly).sequence } ⟨rfl, rfl, rfl, rfl⟩ rfl hnone).2

end Chen
