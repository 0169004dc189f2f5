import Chen.Core.Trace
import Chen.Phases.Cascade
import Chen.Phases.KVPass
import Chen.Phases.Routing

/-!
# One iteration of a pipeline's loop

`StepTrace` lists everything one iteration can do: the calls it puts on the trace and the way it
ends. Each phase's step is shown to be one of its cases; the laws of a run are case analyses over
it.
-/

namespace Chen

open Effect

variable {σ μ : Type}

/-- The result of the last inference decides the result of the iteration. -/
def Expert.Yields (e : Expert σ) (usedKV succeeded textMode : Bool) :
    Except Exn String → Except Exn Invocation → Prop :=
  Agree fun output inv =>
    inv.output = output ∧ inv.textMode = textMode ∧ e.Meters usedKV succeeded inv.metrics

/-- Where an iteration stands: whether it is the first of the run, whether its first attempt runs
inside a `try` that starts over on text, whether `fallback_to_text` is set, and `text_mode`. -/
structure StepMode where
  first : Bool
  guarded : Bool
  fallback : Bool
  textMode : Bool

/-- The calls of one iteration on expert `e` with budget `maxTokens`, and how it ends. -/
inductive StepTrace (e : Expert σ) (maxTokens : ℤ) (mode : StepMode) :
    List (Call σ) → Except Exn Invocation → Prop
  /-- Text in, one inference. A first step on text puts the run in text mode. -/
  | text {prompt : String} {textMode : Bool} {res : Except Exn String}
      {r : Except Exn Invocation}
      (hmode : textMode = (mode.first || mode.textMode))
      (hr : e.Yields false true textMode res r) :
      StepTrace e maxTokens mode [⟨e, .generate prompt maxTokens res⟩] r
  /-- A cache in, transferred and decoded. -/
  | cache {c c' : KVCache} {res : Except Exn String} {r : Except Exn Invocation}
      (hmode : mode.textMode = false)
      (hguard : mode.first = true → mode.guarded = true → res.isOk = true)
      (hr : e.Yields true true false res r) :
      StepTrace e maxTokens mode
        [⟨e, .transferCache c (.ok c')⟩, ⟨e, .decode c' maxTokens res⟩] r
  /-- The first step's transfer raised: `invoke` itself falls back to the text of the cache. -/
  | refused {c : KVCache} {x : Exn} {text : String} {res : Except Exn String}
      {r : Except Exn Invocation} (hfirst : mode.first = true) (hmode : mode.textMode = false)
      (hguard : mode.guarded = true → res.isOk = true)
      (hr : e.Yields false false false res r) :
      StepTrace e maxTokens mode
        [⟨e, .transferCache c (.error x)⟩, ⟨e, .generate text maxTokens res⟩] r
  /-- A later step's transfer raised: `invoke` falls back to the text of the cache, and the
  pipeline invokes the expert once more, on the previous output. -/
  | reinvoked {c : KVCache} {x : Exn} {text out prompt : String} {res : Except Exn String}
      {r : Except Exn Invocation} (hfirst : mode.first = false) (hmode : mode.textMode = false)
      (hr : e.Yields false true true res r) :
      StepTrace e maxTokens mode
        [⟨e, .transferCache c (.error x)⟩, ⟨e, .generate text maxTokens (.ok out)⟩,
          ⟨e, .generate prompt maxTokens res⟩] r
  /-- A later step's transfer raised, and so did the inference on the text of the cache. -/
  | broken {c : KVCache} {x y : Exn} {text : String}
      (hfirst : mode.first = false) (hmode : mode.textMode = false) :
      StepTrace e maxTokens mode
        [⟨e, .transferCache c (.error x)⟩, ⟨e, .generate text maxTokens (.error y)⟩] (.error y)
  /-- A later step's transfer raised, and `fallback_to_text` is off. -/
  | aborted {c : KVCache} {x y : Exn} {text out : String} (hfirst : mode.first = false)
      (hmode : mode.textMode = false) (hfallback : mode.fallback = false) :
      StepTrace e maxTokens mode
        [⟨e, .transferCache c (.error x)⟩, ⟨e, .generate text maxTokens (.ok out)⟩] (.error y)
  /-- A guarded first step whose `decode` raised starts over on text. -/
  | startedOver {c c' : KVCache} {x : Exn} {prompt : String} {res : Except Exn String}
      {r : Except Exn Invocation} (hfirst : mode.first = true) (hguard : mode.guarded = true)
      (hmode : mode.textMode = false) (hr : e.Yields false true true res r) :
      StepTrace e maxTokens mode
        [⟨e, .transferCache c (.ok c')⟩, ⟨e, .decode c' maxTokens (.error x)⟩,
          ⟨e, .generate prompt maxTokens res⟩] r
  /-- A guarded first step whose transfer and `generate` raised starts over on text. -/
  | startedOverRefused {c : KVCache} {x y : Exn} {text prompt : String} {res : Except Exn String}
      {r : Except Exn Invocation} (hfirst : mode.first = true) (hguard : mode.guarded = true)
      (hmode : mode.textMode = false) (hr : e.Yields false true true res r) :
      StepTrace e maxTokens mode
        [⟨e, .transferCache c (.error x)⟩, ⟨e, .generate text maxTokens (.error y)⟩,
          ⟨e, .generate prompt maxTokens res⟩] r

/-- Every iteration infers. -/
theorem StepTrace.inferences_ne_nil {e : Expert σ} {maxTokens : ℤ} {mode : StepMode}
    {cs : List (Call σ)} {r : Except Exn Invocation} (h : StepTrace e maxTokens mode cs r) :
    inferences cs ≠ [] := by
  cases h <;> simp

/-- What an iteration records: the metrics of its invocation and the next loop variables. -/
structure Records (st st' : Progress) (output : String) (m : ExpertMetrics) : Prop where
  metrics : ∃ read written, st'.metrics =
    { st.metrics.add m with memoryEntriesRead := read, memoryEntriesWritten := written }
  perExpert : st'.perExpert = st.perExpert ++ [m]
  currentText : st'.currentText = output
  kwargs : st'.kwargs.maxTokens = none

/-- The settings of a phase that its loop depends on. `guarded` says that the first step starts
over on text, `startText` that the loop starts in text mode. -/
structure Phase (σ : Type) where
  base : Pipeline σ
  maxTokensPerExpert : ℤ
  guarded : Bool
  fallbackToText : Bool
  startText : Bool

namespace Phase

/-- The budget of the next iteration: what `kwargs.pop` finds. -/
def budget (ph : Phase σ) (st : Progress) : ℤ := st.kwargs.maxTokens.getD ph.maxTokensPerExpert

/-- An iteration of the loop that returned. -/
inductive Iterated (ph : Phase σ) (first : Bool) (name : String) (st : Progress) (textMode : Bool)
    (cs : List (Call σ)) (st' : Progress) : Bool → Prop
  | intro {e : Expert σ} {inv : Invocation} (hfind : ph.base.find name = some e)
      (htrace : StepTrace e (ph.budget st) ⟨first, ph.guarded, ph.fallbackToText, textMode⟩ cs
        (.ok inv))
      (hrecords : Records st st' inv.output inv.metrics) :
      Iterated ph first name st textMode cs st' inv.textMode

/-- An iteration of the loop that raised. -/
inductive Stopped (ph : Phase σ) (first : Bool) (name : String) (st : Progress)
    (textMode : Bool) : List (Call σ) → Exn → Prop
  | unknown {x : Exn} (hfind : ph.base.find name = none) : Stopped ph first name st textMode [] x
  | raised {e : Expert σ} {cs : List (Call σ)} {x : Exn} (hfind : ph.base.find name = some e)
      (htrace : StepTrace e (ph.budget st) ⟨first, ph.guarded, ph.fallbackToText, textMode⟩ cs
        (.error x)) :
      Stopped ph first name st textMode cs x

end Phase

/-! ## The memory operations are silent -/

section Memory

variable [Memory μ]

/-- Writing to memory is silent. -/
theorem writeMemory_emits (entry : MemoryEntry) :
    Emits handoffs (writeMemory entry : Run σ μ Unit) fun cs r => cs = [] ∧ ∃ u, r = .ok u ∧ True :=
  Emits.silent (fun _ => rfl) fun _ => ⟨rfl, (), rfl, trivial⟩

omit [Memory μ] in
/-- Reading the state is silent. -/
theorem get_emits :
    Emits handoffs (get : Run σ μ (RunState σ μ)) fun cs r => cs = [] ∧ ∃ s, r = .ok s ∧ True :=
  Emits.silent (fun _ => rfl) fun s => ⟨rfl, s, rfl, trivial⟩

/-- Writing the prompt to memory is silent. -/
theorem writePrompt_emits (enabled : Bool) (prompt : String) :
    Emits handoffs (writePrompt enabled prompt : Run σ μ Unit) fun cs r =>
      cs = [] ∧ ∃ u, r = .ok u ∧ True := by
  unfold writePrompt
  split
  · exact writeMemory_emits _
  · exact Emits.pure ⟨rfl, (), rfl, trivial⟩

/-- `_invoke_expert` on a prompt: one `generate` call, on the augmented prompt. -/
theorem invokeExpert_emits (e : Expert σ) (prompt : String) (maxTokens k : ℤ) :
    Emits handoffs (invokeExpert e (some prompt) none maxTokens k :
      Run σ μ (String × Option KVCache × ExpertMetrics)) fun cs r =>
        ∃ text res, cs = [⟨e, .generate text maxTokens res⟩] ∧ e.Answers false true res r := by
  unfold invokeExpert
  refine get_emits.bind_silent fun s _ => ?_
  exact (e.invokeText_emits _ maxTokens).mono fun cs r h => ⟨_, h⟩

end Memory

/-! ## Answers become results of the iteration -/

section Answers

variable {e : Expert σ} {usedKV succeeded textMode : Bool} {res : Except Exn String}

/-- An answer is what the step goes on with. -/
theorem Expert.Answers.yields {answer : String × Option KVCache × ExpertMetrics}
    {inv : Invocation} (h : e.Answers usedKV succeeded res (.ok answer))
    (houtput : inv.output = answer.1) (hmode : inv.textMode = textMode)
    (hmetrics : inv.metrics = answer.2.2) : e.Yields usedKV succeeded textMode res (.ok inv) := by
  cases h with
  | ok h => exact .ok ⟨houtput.trans h.1, hmode, hmetrics ▸ h.2⟩

/-- An exception ends the step. -/
theorem Expert.Answers.raises {x : Exn} (h : e.Answers usedKV succeeded res (.error x)) :
    e.Yields usedKV succeeded textMode res (.error x) := by
  cases h
  exact .error x

/-- The metrics of an answer say whether the transfer succeeded. -/
theorem Expert.Answers.succeeded_eq {answer : String × Option KVCache × ExpertMetrics}
    (h : e.Answers usedKV succeeded res (.ok answer)) :
    answer.2.2.cacheTransferSucceeded = succeeded ∧ ∃ out, res = .ok out := by
  cases h with
  | ok h => exact ⟨h.2.cacheTransferSucceeded, _, rfl⟩

end Answers

/-! ## The steps of the three phases -/

section Steps

variable [Memory μ]

/-- The text branch of every phase. -/
theorem text_emits (e : Expert σ) (prompt : String) (maxTokens k : ℤ) (mode : StepMode)
    (build : String × Option KVCache × ExpertMetrics → Invocation)
    (houtput : ∀ a, (build a).output = a.1) (hmetrics : ∀ a, (build a).metrics = a.2.2)
    (hmode : ∀ a, (build a).textMode = (mode.first || mode.textMode)) :
    Emits handoffs (do
      let a ← invokeExpert e (some prompt) none maxTokens k
      pure (build a) : Run σ μ Invocation) (StepTrace e maxTokens mode) := by
  refine (invokeExpert_emits e prompt maxTokens k).bind ?_ ?_
  · rintro cs a ⟨text, res, rfl, hans⟩
    exact Emits.pure (.text rfl (hans.yields (houtput a) (hmode a) (hmetrics a)))
  · rintro cs x ⟨text, res, rfl, hans⟩
    exact .text rfl hans.raises

/-- The calls of a step behind the first. -/
theorem handOver_emits (e : Expert σ) (guarded fallback : Bool) (maxTokens : ℤ)
    (st : HandoffProgress) :
    Emits handoffs (handOver e fallback maxTokens st : Run σ μ Invocation)
      (StepTrace e maxTokens ⟨false, guarded, fallback, st.textMode⟩) := by
  unfold handOver
  split
  case h_2 =>
    exact text_emits e _ maxTokens 0 ⟨false, guarded, fallback, st.textMode⟩ _
      (fun _ => rfl) (fun _ => rfl) (fun _ => rfl)
  case h_1 cache hmode _ =>
    by_cases hkv : e.capabilities.supportsKVCache
    · simp only [Expert.invoke, hkv, if_true]
      refine (e.invokeCache_emits cache maxTokens).bind ?_ ?_
      · rintro cs ⟨output, outCache, m⟩
          (⟨cache', res, rfl, hans⟩ | ⟨x, res, rfl, hans⟩)
        · have hok : m.cacheTransferSucceeded = true := hans.succeeded_eq.1
          simp only [hok, if_true]
          exact Emits.pure (StepTrace.cache hmode (by simp) (hans.yields rfl rfl rfl))
        -- The transfer raised: `invoke` has generated, and the pipeline generates again or raises.
        · obtain ⟨hok, out, rfl⟩ := hans.succeeded_eq
          simp only at hok
          simp only [hok, Bool.false_eq_true, if_false]
          split
          · refine (invokeExpert_emits e st.currentText maxTokens 0).bind ?_ ?_
            · rintro cs a ⟨text, res, rfl, hans'⟩
              exact Emits.pure (StepTrace.reinvoked rfl hmode (hans'.yields rfl rfl rfl))
            · rintro cs y ⟨text, res, rfl, hans'⟩
              exact StepTrace.reinvoked rfl hmode hans'.raises
          · rename_i hfallback
            exact Emits.throw (StepTrace.aborted rfl hmode (by simpa using hfallback))
      · rintro cs y (⟨cache', res, rfl, hans⟩ | ⟨x, res, rfl, hans⟩)
        · exact StepTrace.cache hmode (by simp) hans.raises
        · cases hans
          exact StepTrace.broken rfl hmode
    · -- the backend cannot use the cache: `invoke` runs on its text and reports no transfer
      simp only [Expert.invoke, hkv, Bool.false_eq_true, if_false]
      refine (e.invokeText_emits cache.sourceText maxTokens).bind ?_ ?_
      · rintro cs ⟨output, outCache, m⟩ ⟨res, rfl, hans⟩
        have hok : m.cacheTransferSucceeded = true := hans.succeeded_eq.1
        simp only [hok, if_true]
        exact Emits.pure (StepTrace.text (by simp [hmode]) (hans.yields rfl rfl rfl))
      · rintro cs y ⟨res, rfl, hans⟩
        exact StepTrace.text rfl hans.raises

omit [Memory μ] in
/-- A first step on text. -/
theorem first_text_emits (e : Expert σ) (maxTokens : ℤ) (prompt : String) (mode : StepMode)
    (hfirst : mode.first = true) :
    Emits handoffs (do
      let (output, outCache, m) ← e.invoke (some prompt) none maxTokens
      pure { output, outCache, metrics := m, currentCache := none, textMode := true } :
        Run σ μ Invocation) (StepTrace e maxTokens mode) := by
  refine (e.invokeText_emits prompt maxTokens).bind ?_ ?_
  · rintro cs ⟨output, outCache, m⟩ ⟨res, rfl, hans⟩
    exact Emits.pure (StepTrace.text (by simp [hfirst]) (hans.yields rfl rfl rfl))
  · rintro cs x ⟨res, rfl, hans⟩
    exact StepTrace.text rfl hans.raises

/-- Retrieving from memory is silent. -/
theorem retrieveContext_emits (k : ℤ) (prompt : String) :
    Emits handoffs (retrieveContext k prompt : Run σ μ (String × ℤ)) fun cs r =>
      cs = [] ∧ ∃ a, r = .ok a ∧ True := by
  refine get_emits.bind_silent fun s _ => ?_
  have hpure (a : String × ℤ) : Emits handoffs (pure a : Run σ μ (String × ℤ)) fun cs r =>
      cs = [] ∧ ∃ a, r = .ok a ∧ True := Emits.pure ⟨rfl, a, rfl, trivial⟩
  by_cases hempty : (if 0 < k then Memory.retrieve prompt k s.memory else []).isEmpty
  · simpa only [hempty, if_true] using hpure _
  · simpa only [hempty, Bool.false_eq_true, if_false] using hpure _

namespace KVPassPipeline

omit [Memory μ] in
/-- A cache exists only for a backend with KV support. -/
theorem encodePrompt_emits (e : Expert σ) (prompt : String) :
    Emits handoffs (encodePrompt e prompt : Run σ μ (Option KVCache)) fun cs r =>
      cs = [] ∧ ∃ c, r = .ok c ∧ (c.isSome → e.capabilities.supportsKVCache) := by
  unfold encodePrompt
  split
  case isTrue hkv =>
    refine (e.attempt_encode_emits prompt).bind_silent fun r _ => ?_
    cases r with
    | ok c => exact Emits.pure ⟨rfl, _, rfl, fun _ => hkv⟩
    | error x => exact Emits.pure ⟨rfl, _, rfl, fun _ => hkv⟩
  case isFalse => exact Emits.pure ⟨rfl, none, rfl, by simp⟩

omit [Memory μ] in
/-- Encoding the augmented text is silent. -/
theorem reencode_emits (e : Expert σ) (cache : KVCache) (prompt augmented : String) :
    Emits handoffs (reencode e cache prompt augmented : Run σ μ KVCache) fun cs r =>
      cs = [] ∧ ∃ c, r = .ok c ∧ True := by
  unfold reencode
  split
  · refine (e.attempt_encode_emits augmented).bind_silent fun r _ => ?_
    cases r with
    | ok c => exact Emits.pure ⟨rfl, _, rfl, trivial⟩
    | error x => exact Emits.pure ⟨rfl, _, rfl, trivial⟩
  · exact Emits.pure ⟨rfl, _, rfl, trivial⟩

/-- The calls of the first step of phase 2. -/
theorem first_emits (p : KVPassPipeline σ) (e : Expert σ) (maxTokens : ℤ) (prompt : String)
    (fallback : Bool) :
    Emits handoffs (p.first e maxTokens prompt : Run σ μ Invocation)
      (StepTrace e maxTokens ⟨true, false, fallback, false⟩) := by
  unfold first
  refine (encodePrompt_emits e prompt).bind_silent fun encoded hencoded => ?_
  cases encoded with
  | none => exact first_text_emits e maxTokens prompt _ rfl
  | some cache =>
    have hkv : e.capabilities.supportsKVCache = true := hencoded rfl
    refine (retrieveContext_emits p.memoryRetrieveK prompt).bind_silent fun context _ => ?_
    refine (reencode_emits e cache prompt context.1).bind_silent fun current _ => ?_
    simp only [Expert.invoke, hkv, if_true]
    refine (e.invokeCache_emits current maxTokens).bind ?_ ?_
    · rintro cs ⟨output, outCache, m⟩ (⟨cache', res, rfl, hans⟩ | ⟨x, res, rfl, hans⟩)
      · exact Emits.pure (StepTrace.cache rfl (by simp) (hans.yields rfl rfl rfl))
      · exact Emits.pure (StepTrace.refused rfl rfl (by simp) (hans.yields rfl rfl rfl))
    · rintro cs y (⟨cache', res, rfl, hans⟩ | ⟨x, res, rfl, hans⟩)
      · exact StepTrace.cache rfl (by simp) hans.raises
      · exact StepTrace.refused rfl rfl (by simp) hans.raises

end KVPassPipeline

namespace RoutingPipeline

omit [Memory μ] in
/-- The guarded part of the first step: nothing when the encoding raised, else what `invoke` does on
the cache. -/
theorem tried_emits (e : Expert σ) (augmented : String) (maxTokens : ℤ)
    (hkv : e.capabilities.supportsKVCache = true) :
    Emits handoffs (attempt do
      let cache ← e.encode augmented
      let answer ← e.invoke none (some cache) maxTokens
      pure (cache, answer) :
        Run σ μ (Except Exn (KVCache × String × Option KVCache × ExpertMetrics)))
      fun cs tried =>
        (∃ x, tried = .ok (.error x) ∧ cs = []) ∨
        (∃ cache r, tried = .ok (r.map fun a => (cache, a)) ∧
          e.CacheCalls cache maxTokens cs r) := by
  simp only [Expert.invoke, hkv, if_true]
  refine Emits.attempt ((e.encode_emits augmented).bind ?_ ?_)
  · rintro cs cache rfl
    refine (e.invokeCache_emits cache maxTokens).bind ?_ ?_
    · intro cs answer hcalls
      exact Emits.pure (.inr ⟨cache, .ok answer, rfl, by simpa using hcalls⟩)
    · intro cs x hcalls
      exact .inr ⟨cache, .error x, rfl, by simpa using hcalls⟩
  · rintro cs x rfl
    exact .inl ⟨x, rfl, rfl⟩

/-- Starting over on text, after the calls `cs` of an attempt that raised. -/
theorem startOver_emits (p : RoutingPipeline σ) (e : Expert σ) (maxTokens : ℤ) (prompt : String)
    (entriesRead : ℤ) {Φ : List (Call σ) → Except Exn Invocation → Prop} {cs : List (Call σ)}
    (h : ∀ text res r, e.Yields false true true res r →
      Φ (cs ++ [⟨e, .generate text maxTokens res⟩]) r) :
    Emits handoffs (do
      let (output, outCache, m) ←
        invokeExpert e (some prompt) none maxTokens p.memoryRetrieveK
      pure
        { output, outCache, metrics := m, currentCache := none, textMode := true, entriesRead } :
          Run σ μ Invocation) fun cs' r => Φ (cs ++ cs') r := by
  refine (invokeExpert_emits e prompt maxTokens p.memoryRetrieveK).bind ?_ ?_
  · rintro cs' a ⟨text, res, rfl, hans⟩
    exact Emits.pure (by simpa using h text res _ (hans.yields rfl rfl rfl))
  · rintro cs' x ⟨text, res, rfl, hans⟩
    exact h text res _ hans.raises

/-- The calls of the first step of phase 3. -/
theorem first_emits (p : RoutingPipeline σ) (e : Expert σ) (maxTokens : ℤ) (prompt : String)
    (textMode fallback : Bool) :
    Emits handoffs (p.first e maxTokens prompt textMode : Run σ μ Invocation)
      (StepTrace e maxTokens ⟨true, true, fallback, textMode⟩) := by
  unfold first
  split
  case isFalse =>
    exact text_emits e prompt maxTokens p.memoryRetrieveK ⟨true, true, fallback, textMode⟩ _
      (fun _ => rfl) (fun _ => rfl) (fun _ => rfl)
  case isTrue h =>
    obtain ⟨hmode, hkv⟩ : textMode = false ∧ e.capabilities.supportsKVCache = true := by
      simpa using h
    subst hmode
    refine (retrieveContext_emits p.memoryRetrieveK prompt).bind_silent fun context _ => ?_
    -- `encode` and `invoke` stand in one `try`; whatever raises there, it starts over on the text.
    refine (tried_emits e context.1 maxTokens hkv).bind ?_ ?_
    · rintro cs tried (⟨x, htried, rfl⟩ | ⟨cache, r, htried, hcalls⟩)
      · cases htried
        refine startOver_emits p e maxTokens prompt context.2 fun text res r hr => ?_
        exact StepTrace.text rfl hr
      · cases htried
        rcases hcalls with ⟨cache', res, rfl, hans⟩ | ⟨x, res, rfl, hans⟩
        · cases hans with
          | ok h =>
            exact Emits.pure
              (StepTrace.cache rfl (fun _ _ => rfl) (.ok ⟨h.1.symm ▸ rfl, rfl, h.2⟩))
          | error y =>
            refine startOver_emits p e maxTokens prompt context.2 fun text res r hr => ?_
            exact StepTrace.startedOver rfl rfl rfl hr
        · cases hans with
          | ok h =>
            exact Emits.pure
              (StepTrace.refused rfl rfl (fun _ => rfl) (.ok ⟨h.1.symm ▸ rfl, rfl, h.2⟩))
          | error y =>
            refine startOver_emits p e maxTokens prompt context.2 fun text res r hr => ?_
            exact StepTrace.startedOverRefused rfl rfl rfl hr
    · rintro cs x (⟨y, htried, -⟩ | ⟨cache, r, htried, -⟩)
      · cases htried
      · cases htried

end RoutingPipeline

/-! ## Whole iterations -/

/-- Recording a step is silent. -/
theorem recordHandoff_emits (e : Expert σ) (isLast write : Bool) {kwargs : Kwargs}
    (hkwargs : kwargs.maxTokens = none) (st : HandoffProgress) (inv : Invocation) :
    Emits handoffs (recordHandoff e isLast write kwargs st inv : Run σ μ HandoffProgress)
      fun cs r => cs = [] ∧ ∃ st', r = .ok st' ∧
        Records st.toProgress st'.toProgress inv.output inv.metrics ∧
        st'.textMode = inv.textMode ∧ st'.currentCache = inv.outCache := by
  unfold recordHandoff
  cases write with
  | true =>
    refine (writeMemory_emits _).bind_silent fun _ _ => ?_
    exact Emits.pure ⟨rfl, _, rfl, ⟨⟨_, _, rfl⟩, rfl, rfl, hkwargs⟩, rfl, rfl⟩
  | false => exact Emits.pure ⟨rfl, _, rfl, ⟨⟨_, _, rfl⟩, rfl, rfl, hkwargs⟩, rfl, rfl⟩

omit [Memory μ] in
/-- Looking an expert up is silent. -/
theorem getExpert_emits (base : Pipeline σ) (name : String) :
    Emits handoffs (liftExcept (base.getExpert name) : Run σ μ (Expert σ)) fun cs r =>
      cs = [] ∧ ((∃ e, base.find name = some e ∧ r = .ok e) ∨
        (∃ x, base.find name = none ∧ r = .error x)) := by
  refine Emits.liftExcept ?_
  unfold Pipeline.getExpert
  cases base.find name with
  | some e => exact ⟨rfl, .inl ⟨e, rfl, rfl⟩⟩
  | none => exact ⟨rfl, .inr ⟨_, rfl, rfl⟩⟩

omit [Memory μ] in
/-- An iteration of the two phases that hand caches over: look the expert up, compute its
invocation, record it. -/
theorem handoffStep_emits (ph : Phase σ) (first : Bool) (name : String) (st : HandoffProgress)
    {invoke : Expert σ → Run σ μ Invocation}
    {record : Expert σ → Invocation → Run σ μ HandoffProgress}
    (hinvoke : ∀ e, Emits handoffs (invoke e)
      (StepTrace e (ph.budget st.toProgress)
        ⟨first, ph.guarded, ph.fallbackToText, st.textMode⟩))
    (hrecord : ∀ e inv, Emits handoffs (record e inv) fun cs r => cs = [] ∧ ∃ st', r = .ok st' ∧
      Records st.toProgress st'.toProgress inv.output inv.metrics ∧ st'.textMode = inv.textMode ∧
      st'.currentCache = inv.outCache) :
    Emits handoffs (do
      let e ← liftExcept (ph.base.getExpert name)
      let inv ← invoke e
      record e inv)
      (Ends (fun cs st' => ph.Iterated first name st.toProgress st.textMode cs st'.toProgress
          st'.textMode)
        (ph.Stopped first name st.toProgress st.textMode)) := by
  refine (getExpert_emits ph.base name).bind ?_ ?_
  · rintro cs e ⟨rfl, ⟨e', hfind, he⟩ | ⟨x, -, hx⟩⟩
    · cases he
      -- The iteration returns exactly if the step does.
      refine (hinvoke e).bind ?_ ?_
      · intro cs inv htrace
        refine (hrecord e inv).mono ?_
        rintro cs' r ⟨rfl, st', rfl, hrecords, hmode, -⟩
        rw [List.append_nil, List.nil_append, Ends, hmode]
        exact ⟨hfind, htrace, hrecords⟩
      · intro cs x htrace
        exact .raised hfind htrace
    · cases hx
  · rintro cs x ⟨rfl, ⟨e, -, he⟩ | ⟨y, hfind, hy⟩⟩
    · cases he
    · exact .unknown hfind

namespace CascadePipeline

/-- The cascade's loop: always in text mode. -/
def phase (p : CascadePipeline σ) : Phase σ :=
  ⟨p.toPipeline, p.maxTokensPerExpert, false, true, true⟩

/-- An iteration of phase 1. -/
theorem step_emits (p : CascadePipeline σ) (st : Progress) (item : String × ℕ) :
    Emits handoffs (p.step st item : Run σ μ Progress)
      (Ends (fun cs st' => p.phase.Iterated (item.2 = 0) item.1 st true cs st' true)
        (p.phase.Stopped (item.2 = 0) item.1 st true)) := by
  unfold step
  refine (getExpert_emits p.toPipeline item.1).bind ?_ ?_
  · rintro cs e ⟨rfl, ⟨e', hfind, he⟩ | ⟨x, -, hx⟩⟩
    · cases he
      refine (invokeExpert_emits e _ _ _).bind ?_ ?_
      · rintro cs a ⟨text, res, rfl, hans⟩
        have htrace : StepTrace e (p.phase.budget st) ⟨item.2 = 0, false, true, true⟩
            [⟨e, .generate text (p.phase.budget st) res⟩]
            (.ok ⟨a.1, a.2.1, a.2.2, none, true, 0⟩) :=
          .text (by simp) (hans.yields rfl rfl rfl)
        have hiter (st' : Progress) (h : Records st st' a.1 a.2.2) :
            p.phase.Iterated (item.2 = 0) item.1 st true
              [⟨e, .generate text (p.phase.budget st) res⟩] st' true :=
          Phase.Iterated.intro hfind htrace h
        cases hwrite : p.writeIntermediateToMemory with
        | true =>
          refine (writeMemory_emits _).bind_silent fun _ _ => ?_
          refine Emits.pure (hiter _ ⟨?_, rfl, rfl, rfl⟩)
          split
          · exact ⟨_, _, rfl⟩
          · exact ⟨_, _, rfl⟩
        | false =>
          refine Emits.pure (hiter _ ⟨?_, rfl, rfl, rfl⟩)
          split
          · exact ⟨_, _, rfl⟩
          · exact ⟨_, _, rfl⟩
      · rintro cs x ⟨text, res, rfl, hans⟩
        exact .raised hfind (.text rfl hans.raises)
    · cases hx
  · rintro cs x ⟨rfl, ⟨e, -, he⟩ | ⟨y, hfind, hy⟩⟩
    · cases he
    · exact .unknown hfind

end CascadePipeline

namespace KVPassPipeline

def phase (p : KVPassPipeline σ) : Phase σ :=
  ⟨p.toPipeline, p.maxTokensPerExpert, false, p.fallbackToText, false⟩

/-- An iteration of phase 2. -/
theorem step_emits (p : KVPassPipeline σ) (prompt : String) (st : HandoffProgress)
    (item : String × ℕ) (hfirst : item.2 = 0 → st.textMode = false) :
    Emits handoffs (p.step prompt st item : Run σ μ HandoffProgress)
      (Ends (fun cs st' => p.phase.Iterated (item.2 = 0) item.1 st.toProgress st.textMode cs
          st'.toProgress st'.textMode)
        (p.phase.Stopped (item.2 = 0) item.1 st.toProgress st.textMode)) := by
  refine handoffStep_emits p.phase (item.2 = 0) item.1 st (fun e => ?_) (fun e inv => ?_)
  · by_cases h : item.2 = 0
    · simp only [h, if_true, decide_true, hfirst h]
      exact p.first_emits e _ prompt p.fallbackToText
    · simp only [h, if_false]
      exact handOver_emits e _ p.fallbackToText _ st
  · exact recordHandoff_emits e _ _ rfl st inv

end KVPassPipeline

namespace RoutingPipeline

def phase (p : RoutingPipeline σ) : Phase σ :=
  ⟨p.toPipeline, p.maxTokensPerExpert, true, p.fallbackToText, p.handoff = .text⟩

/-- An iteration of phase 3. -/
theorem step_emits (p : RoutingPipeline σ) (prompt : String) (n : ℕ) (st : HandoffProgress)
    (item : String × ℕ) :
    Emits handoffs (p.step prompt n st item : Run σ μ HandoffProgress)
      (Ends (fun cs st' => p.phase.Iterated (item.2 = 0) item.1 st.toProgress st.textMode cs
          st'.toProgress st'.textMode)
        (p.phase.Stopped (item.2 = 0) item.1 st.toProgress st.textMode)) := by
  refine handoffStep_emits p.phase (item.2 = 0) item.1 st (fun e => ?_) (fun e inv => ?_)
  · by_cases h : item.2 = 0
    · simp only [h, if_true]
      exact p.first_emits e _ prompt st.textMode p.fallbackToText
    · simp only [h, if_false]
      exact handOver_emits e _ p.fallbackToText _ st
  · exact recordHandoff_emits e _ _ rfl st inv

end RoutingPipeline

end Steps

end Chen
