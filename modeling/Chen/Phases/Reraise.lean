import Chen.Phases.Runs

/-!
# A failed transfer without fallback

With `fallback_to_text` off, a transfer that fails past the first expert is to end the run with its
exception. But `invoke` has caught that exception and gone on to `generate`; the pipeline learns
of it from a flag, and its bare `raise` stands outside every `except` block.
-/

namespace Chen

open Effect

variable {σ μ : Type}

/-- The calls after the first inference: those of the experts after the first, and what is left of
the first one's. -/
def afterFirst (cs : List (Call σ)) : List (Call σ) :=
  (cs.dropWhile fun c => !c.op.isInference).tail

/-- The calls behind the first inference of a trace that is cut. -/
theorem afterFirst_append {cs ds : List (Call σ)} (h : inferences cs ≠ []) :
    afterFirst (cs ++ ds) = afterFirst cs ++ ds := by
  induction cs with
  | nil => exact absurd rfl h
  | cons c cs ih =>
    rw [afterFirst, afterFirst, List.cons_append, List.dropWhile_cons, List.dropWhile_cons]
    cases hc : c.op.isInference with
    | true => rfl
    | false =>
      rw [inferences_cons, hc] at h
      exact ih h

/-- What a bare `raise` raises when no exception is being handled. -/
def noActiveException : Exn := .runtime "No active exception to reraise"

/-- How an iteration ends after a refused cache, by the result of the `generate` call that `invoke`
makes before the pipeline hears of the refusal. -/
def raisedInstead : Except Exn String → Exn
  | .ok _ => noActiveException
  | .error y => y

/-- Past the first inference of the trace, that is after the first expert, the transfer of `c` to
`e` raised `x`, and `post` followed. -/
def LateFailure (cs : List (Call σ)) (e : Expert σ) (c : KVCache) (x : Exn)
    (post : List (Call σ)) : Prop :=
  ∃ pre, cs = pre ++ ⟨e, .transferCache c (.error x)⟩ :: post ∧ inferences pre ≠ []

/-- After the late failure of a transfer there is one `generate` call, on the text of the cache,
and the run ends as `raisedInstead` says. -/
def EndsLate {α : Type} (cs : List (Call σ)) (r : Except Exn α) : Prop :=
  ∀ e c x post, LateFailure cs e c x post →
    ∃ m res, post = [⟨e, .generate c.sourceText m res⟩] ∧ r = .error (raisedInstead res)

/-- No transfer past the first inference raised. -/
def NoLateFailure (cs : List (Call σ)) : Prop := ∀ e c x post, ¬LateFailure cs e c x post

/-- A trace without a late failure may end in any way. -/
theorem NoLateFailure.endsLate {α : Type} {cs : List (Call σ)} (h : NoLateFailure cs)
    (r : Except Exn α) : EndsLate cs r :=
  fun e c x post hlate => absurd hlate (h e c x post)

/-- An empty trace has no late failure. -/
theorem noLateFailure_nil : NoLateFailure ([] : List (Call σ)) := by
  rintro e c x post ⟨pre, hsplit, -⟩
  simp at hsplit

/-- A late failure lies behind what has none. -/
theorem LateFailure.of_append {cs cs' : List (Call σ)} {e : Expert σ} {c : KVCache} {x : Exn}
    {post : List (Call σ)} (h : LateFailure (cs ++ cs') e c x post) (hcs : NoLateFailure cs) :
    ∃ pre, cs' = pre ++ ⟨e, .transferCache c (.error x)⟩ :: post := by
  obtain ⟨pre, hsplit, hlate⟩ := h
  rcases List.append_eq_append_iff.mp hsplit with ⟨mid, -, hcs'⟩ | ⟨mid, hpre, hmid⟩
  · exact ⟨mid, hcs'⟩
  · cases mid with
    | nil => exact ⟨[], hmid.symm⟩
    | cons d mid =>
      rw [List.cons_append, List.cons.injEq] at hmid
      rw [← hmid.1] at hpre
      exact absurd ⟨pre, hpre, hlate⟩ (hcs e c x mid)

/-- None of these transfers raised. -/
def TransfersReturn (cs : List (Call σ)) : Prop :=
  ∀ e c x, (⟨e, .transferCache c (.error x)⟩ : Call σ) ∉ cs

/-- A later iteration with `fallback_to_text` off: no transfer raised, or one did and ended it. -/
def LaterTrace {α : Type} (cs : List (Call σ)) (r : Except Exn α) : Prop :=
  TransfersReturn cs ∨ ∃ e c x m res,
    cs = [⟨e, .transferCache c (.error x)⟩, ⟨e, .generate c.sourceText m res⟩] ∧
      r = .error (raisedInstead res)

/-! ## One iteration -/

/-- The transfers of a first iteration come before its inferences. -/
theorem StepTrace.first_transfers {e : Expert σ} {maxTokens : ℤ} {mode : StepMode}
    {cs : List (Call σ)} {r : Except Exn Invocation} (h : StepTrace e maxTokens mode cs r)
    (hfirst : mode.first = true) : ∀ d ∈ afterFirst cs, d.op.isTransfer = false := by
  cases h with
  | text | cache | refused | startedOver | startedOverRefused => simp [afterFirst]
  | reinvoked hf | broken hf | aborted hf =>
    rw [hfirst] at hf
    cases hf

/-- A first step has no late failure. -/
theorem StepTrace.noLateFailure {e : Expert σ} {maxTokens : ℤ} {mode : StepMode}
    {cs : List (Call σ)} {r : Except Exn Invocation} (h : StepTrace e maxTokens mode cs r)
    (hfirst : mode.first = true) : NoLateFailure cs := by
  rintro e' c x post ⟨pre, rfl, hlate⟩
  have htransfer := h.first_transfers hfirst ⟨e', .transferCache c (.error x)⟩
  rw [afterFirst_append hlate] at htransfer
  simp at htransfer

/-- However a first iteration ends, it has no late failure, and it returns with an inference. -/
theorem Phase.first_noLateFailure {ph : Phase σ} {name : String} {st : Progress} {textMode : Bool}
    {S : Type} {progress : S → Progress} {mode : S → Bool} {cs : List (Call σ)}
    {r : Except Exn S}
    (h : Ends (fun cs st' => ph.Iterated true name st textMode cs (progress st') (mode st'))
      (ph.Stopped true name st textMode) cs r) :
    NoLateFailure cs ∧ (r.isOk = true → inferences cs ≠ []) := by
  cases r with
  | error x =>
    refine ⟨?_, by simp⟩
    cases h with
    | unknown => exact noLateFailure_nil
    | raised _ htrace => exact htrace.noLateFailure rfl
  | ok st' =>
    rw [Ends] at h
    generalize mode st' = after at h
    obtain ⟨-, htrace, -⟩ := h
    exact ⟨htrace.noLateFailure rfl, fun _ => htrace.inferences_ne_nil⟩

section Memory

variable [Memory μ]

/-- The calls of a later step. -/
theorem handOver_emits_later (e : Expert σ) (maxTokens : ℤ) (st : HandoffProgress) :
    Emits handoffs (handOver e false maxTokens st : Run σ μ Invocation) LaterTrace := by
  unfold handOver
  split
  case h_2 =>
    refine (invokeExpert_emits e _ maxTokens 0).bind ?_ ?_
    · rintro cs a ⟨text, res, rfl, -⟩
      exact Emits.pure (.inl (by simp [TransfersReturn]))
    · rintro cs x ⟨text, res, rfl, -⟩
      exact .inl (by simp [TransfersReturn])
  case h_1 cache hmode _ =>
    by_cases hkv : e.capabilities.supportsKVCache
    · simp only [Expert.invoke, hkv, if_true]
      refine (e.invokeCache_emits cache maxTokens).bind ?_ ?_
      · rintro cs ⟨output, outCache, m⟩ (⟨cache', res, rfl, hans⟩ | ⟨x, res, rfl, hans⟩)
        · have hok : m.cacheTransferSucceeded = true := hans.succeeded_eq.1
          simp only [hok, if_true]
          exact Emits.pure (.inl (by simp [TransfersReturn]))
        · obtain ⟨hfailed, out, rfl⟩ := hans.succeeded_eq
          -- the flag tells of the failure, and the bare `raise` finds no exception
          simp only at hfailed
          simp only [hfailed, Bool.false_eq_true, if_false]
          exact Emits.throw (.inr ⟨e, cache, x, maxTokens, .ok out, rfl, rfl⟩)
      · rintro cs y (⟨cache', res, rfl, hans⟩ | ⟨x, res, rfl, hans⟩)
        · exact .inl (by simp [TransfersReturn])
        · cases hans
          -- `generate` raised inside `invoke`, before the flag was read
          exact .inr ⟨e, cache, x, maxTokens, .error y, rfl, rfl⟩
    · simp only [Expert.invoke, hkv, Bool.false_eq_true, if_false]
      refine (e.invokeText_emits cache.sourceText maxTokens).bind ?_ ?_
      · rintro cs ⟨output, outCache, m⟩ ⟨res, rfl, hans⟩
        have hok : m.cacheTransferSucceeded = true := hans.succeeded_eq.1
        simp only [hok, if_true]
        exact Emits.pure (.inl (by simp [TransfersReturn]))
      · rintro cs y ⟨res, rfl, -⟩
        exact .inl (by simp [TransfersReturn])

/-- A whole later iteration: an expert that cannot be found makes no calls, and recording an
invocation makes none either. -/
theorem laterStep_emits (base : Pipeline σ) (name : String) (maxTokens : ℤ)
    (st : HandoffProgress) (isLast write : Bool) {kwargs : Kwargs}
    (hkwargs : kwargs.maxTokens = none) :
    Emits handoffs (do
      let expert ← liftExcept (base.getExpert name)
      let inv ← handOver expert false maxTokens st
      recordHandoff expert isLast write kwargs st inv : Run σ μ HandoffProgress)
      LaterTrace := by
  refine (getExpert_emits base name).bind ?_ ?_
  · rintro cs e ⟨rfl, -⟩
    refine (handOver_emits_later e maxTokens st).bind ?_ ?_
    · rintro cs inv (hreturn | ⟨e', c, x, m, res, -, hraise⟩)
      · refine (recordHandoff_emits e isLast write hkwargs st inv).mono ?_
        rintro cs' r ⟨rfl, -⟩
        rw [List.append_nil]
        exact .inl hreturn
      · cases hraise
    · rintro cs y (hreturn | ⟨e', c, x, m, res, rfl, hraise⟩)
      · exact .inl hreturn
      · cases hraise
        exact .inr ⟨e', c, x, m, res, rfl, rfl⟩
  · rintro cs x ⟨rfl, -⟩
    exact .inl (by simp [TransfersReturn])

/-! ## Whole runs -/

omit [Memory μ] in
/-- The loop: the first iteration has no late failure, and a later one that has one ends it. -/
theorem loop_endsLate {S : Type} {step : S → String × ℕ → Run σ μ S} {init : S}
    (names : List String)
    (hfirst : ∀ item, item.2 = 0 → Emits handoffs (step init item) fun cs r =>
      NoLateFailure cs ∧ (r.isOk = true → inferences cs ≠ []))
    (hlater : ∀ st item, item.2 ≠ 0 → Emits handoffs (step st item) LaterTrace) :
    Emits handoffs (names.zipIdx.foldlM step init) EndsLate := by
  refine (Emits.foldlM
    (I := fun done cs st => NoLateFailure cs ∧
      (done = [] → cs = [] ∧ st = init) ∧ (done ≠ [] → inferences cs ≠ []))
    (E := fun cs x => EndsLate (α := S) cs (.error x)) ?_ ?_).mono ?_
  · rintro done item rest hsplit cs st ⟨hcs, hnone, hsome⟩
    obtain ⟨-, hzero⟩ := zipIdx_split hsplit
    by_cases hdone : done = []
    · obtain ⟨rfl, rfl⟩ := hnone hdone
      refine (hfirst item (hzero.mpr hdone)).mono ?_
      rintro cs' (x | st') ⟨hcs', hinfer⟩
      · exact hcs'.endsLate _
      · exact ⟨hcs', by simp, fun _ => hinfer rfl⟩
    · refine (hlater st item fun h => hdone (hzero.mp h)).mono ?_
      rintro cs' r (hreturn | ⟨e', c', x', m, res, rfl, rfl⟩)
      · -- no transfer of this iteration raised, nor one of those before
        have hboth : NoLateFailure (cs ++ cs') := by
          intro e c x post hlate
          obtain ⟨pre, rfl⟩ := hlate.of_append hcs
          exact hreturn e c x (by simp)
        cases r with
        | error x => exact hboth.endsLate _
        | ok st' =>
          refine ⟨hboth, by simp, fun _ => ?_⟩
          rw [inferences_append]
          exact List.append_ne_nil_of_left_ne_nil (hsome hdone) _
      · intro e c x post hlate
        -- of the two calls of this iteration only the first is a transfer
        obtain ⟨pre, hpre⟩ := hlate.of_append hcs
        rcases pre with _ | ⟨d, _ | ⟨d', pre⟩⟩
        · cases hpre
          exact ⟨m, res, rfl, rfl⟩
        · cases hpre
        · simp at hpre
  · exact ⟨noLateFailure_nil, fun _ => ⟨rfl, rfl⟩, fun h => absurd rfl h⟩
  · rintro cs (x | st) hend
    · exact hend
    · exact NoLateFailure.endsLate hend.1 _

/-- The loop of phase 2 ends as its late failure says, if it has one. -/
theorem KVPassPipeline.loop_endsLate (p : KVPassPipeline σ) (hoff : p.fallbackToText = false)
    (prompt : String) (kwargs : Kwargs) :
    Emits handoffs (p.sequence.names.zipIdx.foldlM (p.step prompt)
      { metrics := { cost := p.cost }, currentText := prompt, textMode := false, kwargs } :
        Run σ μ HandoffProgress) EndsLate := by
  refine Chen.loop_endsLate p.sequence.names ?_ ?_
  · intro item hitem
    refine (p.step_emits prompt _ item fun _ => rfl).mono fun cs r h => ?_
    rw [hitem] at h
    exact Phase.first_noLateFailure h
  · intro st item hitem
    unfold step
    simp only [if_neg hitem, hoff]
    exact laterStep_emits p.toPipeline item.1 _ st _ _ rfl

/-- So does the loop of phase 3. -/
theorem RoutingPipeline.loop_endsLate (p : RoutingPipeline σ) (hoff : p.fallbackToText = false)
    (prompt : String) (kwargs : Kwargs) (names : List String) :
    Emits handoffs (names.zipIdx.foldlM (p.step prompt names.length)
      { metrics := { cost := p.cost }, currentText := prompt
        textMode := p.handoff = .text, kwargs } : Run σ μ HandoffProgress) EndsLate := by
  refine Chen.loop_endsLate names ?_ ?_
  · intro item hitem
    refine (p.step_emits prompt names.length _ item).mono fun cs r h => ?_
    rw [hitem] at h
    exact Phase.first_noLateFailure h
  · intro st item hitem
    unfold step
    simp only [if_neg hitem, hoff]
    exact laterStep_emits p.toPipeline item.1 _ st _ _ rfl

omit [Memory μ] in
/-- What follows a loop makes no calls. -/
theorem EndsLate.finish {S : Type} {loop : Run σ μ S} (hloop : Emits handoffs loop EndsLate)
    (base : Pipeline σ) (names : List String) (build : S → List (Expert σ) → PipelineResult) :
    Emits handoffs (do
      let st ← loop
      let experts ← liftExcept (base.getExperts names)
      pure (build st experts)) EndsLate := by
  have hdone : ∀ {cs : List (Call σ)} {st : S} {r : Except Exn PipelineResult},
      EndsLate cs (.ok st : Except Exn S) → EndsLate cs r := by
    intro cs st r h e c x post hlate
    obtain ⟨m, res, -, hr⟩ := h e c x post hlate
    cases hr
  refine hloop.bind (fun cs st hcs => ?_) fun cs x hcs e c y post hlate => ?_
  · cases base.getExperts names with
    | ok experts => exact Emits.pure (by simpa using hdone hcs)
    | error x => exact Emits.throw (by simpa using hdone hcs)
  · obtain ⟨m, res, hpost, hx⟩ := hcs e c y post hlate
    cases hx
    exact ⟨m, res, hpost, rfl⟩

/-- So does every run without the fallback. -/
theorem AnyPipeline.run_endsLate (p : AnyPipeline σ) (hoff : p.fallbackToText = false)
    (prompt : String) (kwargs : Kwargs) :
    Emits handoffs (p.run prompt kwargs : Run σ μ PipelineResult) EndsLate := by
  cases p with
  | cascade p => cases hoff
  | kvPass p =>
    refine (writePrompt_emits p.writeIntermediateToMemory prompt).bind_silent fun _ _ => ?_
    exact EndsLate.finish (p.loop_endsLate hoff prompt kwargs) p.toPipeline p.sequence.names _
  | routing p =>
    show Emits handoffs (p.run prompt kwargs : Run σ μ PipelineResult) EndsLate
    unfold RoutingPipeline.run
    cases p.selectNames prompt with
    | error x => exact Emits.throw (noLateFailure_nil.endsLate _)
    | ok names =>
      refine (writePrompt_emits p.writeIntermediateToMemory prompt).bind_silent fun _ _ => ?_
      exact EndsLate.finish (p.loop_endsLate hoff prompt kwargs names) p.toPipeline names _

/-- With fallback off, a run in which a transfer past the first expert raised `x` raises `x` if and
only if the `generate` call that follows raised it too, or returned where `x` is what a bare `raise`
raises by itself. -/
theorem AnyPipeline.reraises_iff (p : AnyPipeline σ) (prompt : String) (kwargs : Kwargs)
    (s : RunState σ μ) (e : Expert σ) (c : KVCache) (x : Exn) (post : List (Call σ))
    (hs : s.calls = []) (hoff : p.fallbackToText = false)
    (hlate : LateFailure (handoffs (final (p.run prompt kwargs s))) e c x post) :
    outcome (p.run prompt kwargs s) = .error x ↔
      (∃ m, ⟨e, .generate c.sourceText m (.error x)⟩ ∈ post) ∨
        x = noActiveException ∧ ∃ m out, ⟨e, .generate c.sourceText m (.ok out)⟩ ∈ post := by
  have hempty : handoffs s = [] := by rw [handoffs, hs, List.filter_nil]
  obtain ⟨m, res, rfl, hraise⟩ := (p.run_endsLate hoff prompt kwargs).run hempty e c x post hlate
  rw [hraise]
  cases res with
  | ok out => simp [raisedInstead, eq_comm]
  | error y => simp [raisedInstead, eq_comm]

end Memory

/-- Phase 2 without fallback, over an expert that encodes and one that refuses its cache. -/
def strictKVPass : KVPassPipeline Unit := { duoKVPass {} refusing with fallbackToText := false }

/-- The second of its experts. -/
def strictSecond : Expert Unit :=
  { name := "b", role := .synthesizer, backend := refusing.backend }

/-- The second expert's cache is refused. -/
theorem strictKVPass_lateFailure : ∃ post, LateFailure
    (handoffs (final ((AnyPipeline.kvPass strictKVPass).run "p" {} idle))) strictSecond
    (.ofText "p\np!") (.incompatibleCache "layer mismatch") post :=
  ⟨_, [⟨{ name := "a", role := .analyst, backend := ({} : Script).backend },
      .transferCache (.ofText "p") (.ok (.ofText "p"))⟩,
    ⟨{ name := "a", role := .analyst, backend := ({} : Script).backend },
      .decode (.ofText "p") 256 (.ok "p!")⟩], rfl, by simp⟩

/-- A backend that refuses every cache, and every text in the same words. -/
def refusingAll : Script :=
  { refusing with generate := fun _ => .error (.incompatibleCache "layer mismatch") }

/-- Where the second expert refuses the text as it refused the cache, that exception is raised. -/
theorem AnyPipeline.reraises_refused :
    let p : KVPassPipeline Unit := { duoKVPass {} refusingAll with fallbackToText := false }
    outcome ((AnyPipeline.kvPass p).run "p" {} idle) =
      .error (.incompatibleCache "layer mismatch") := by
  intro p
  have hlate : LateFailure (handoffs (final ((AnyPipeline.kvPass p).run "p" {} idle)))
      ⟨"b", .synthesizer, refusingAll.backend, ""⟩ (.ofText "p\np!")
      (.incompatibleCache "layer mismatch")
      [⟨⟨"b", .synthesizer, refusingAll.backend, ""⟩,
        .generate "p\np!" 256 (.error (.incompatibleCache "layer mismatch"))⟩] :=
    ⟨[⟨⟨"a", .analyst, ({} : Script).backend, ""⟩,
        .transferCache (.ofText "p") (.ok (.ofText "p"))⟩,
      ⟨⟨"a", .analyst, ({} : Script).backend, ""⟩, .decode (.ofText "p") 256 (.ok "p!")⟩], rfl,
      by simp⟩
  exact (reraises_iff (.kvPass p) "p" {} idle _ _ _ _ rfl rfl hlate).mpr
    (.inl ⟨256, List.mem_singleton.mpr rfl⟩)

/-- `transfer_cache` raised `IncompatibleCacheError`, the run raises `RuntimeError`. -/
theorem AnyPipeline.transfer_error_lost :
    (∃ post, LateFailure
      (handoffs (final ((AnyPipeline.kvPass strictKVPass).run "p" {} idle))) strictSecond
      (.ofText "p\np!") (.incompatibleCache "layer mismatch") post) ∧
    outcome ((AnyPipeline.kvPass strictKVPass).run "p" {} idle) ≠
      .error (.incompatibleCache "layer mismatch") :=
  ⟨strictKVPass_lateFailure, by decide⟩

end Chen
