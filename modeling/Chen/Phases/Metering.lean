import Chen.Phases.Runs
import Mathlib.Algebra.BigOperators.Group.List.Lemmas
import Mathlib.Algebra.BigOperators.Group.Finset.Basic
import Mathlib.Algebra.BigOperators.Ring.Finset
import Mathlib.Algebra.Order.BigOperators.Group.Finset
import Mathlib.Algebra.Field.Rat
import Mathlib.Algebra.Group.Action.Defs
import Mathlib.Algebra.Order.Ring.Rat
import Mathlib.Data.Nat.Cast.Order.Ring

/-!
# What the metrics of a run count

The aggregate metrics are compared with the calls the run made. A step that falls back to text can
infer twice and record one of the two, and a failed transfer is recorded as no use of a cache at
all: the two laws below say exactly which runs this does not touch.
-/

namespace Chen

open Effect

variable {σ μ : Type}

/-! ## What one iteration meters -/

section Step

variable {e : Expert σ} {maxTokens : ℤ} {mode : StepMode} {cs : List (Call σ)} {inv : Invocation}

/-- A step that returned had the output of its call, and metrics of its expert. -/
theorem Expert.Yields.ok_inv {usedKV succeeded textMode : Bool} {res : Except Exn String}
    (h : e.Yields usedKV succeeded textMode res (.ok inv)) :
    res = .ok inv.output ∧ inv.textMode = textMode ∧ e.Meters usedKV succeeded inv.metrics := by
  cases h with
  | ok h => exact ⟨h.1 ▸ rfl, h.2⟩

/-- The recorded metrics are those of the expert that ran. -/
theorem StepTrace.meters (h : StepTrace e maxTokens mode cs (.ok inv)) :
    ∃ usedKV succeeded, e.Meters usedKV succeeded inv.metrics := by
  cases h with
  | text _ hr | cache _ _ hr | refused _ _ _ hr | reinvoked _ _ hr | startedOver _ _ _ hr
  | startedOverRefused _ _ _ hr => exact ⟨_, _, hr.ok_inv.2.2⟩

/-- An iteration makes one transfer at most, and none in text mode. -/
theorem StepTrace.length_transfers_le (h : StepTrace e maxTokens mode cs (.ok inv)) :
    (transfers cs).length ≤ 1 := by
  cases h <;> simp

/-- In text mode nothing is transferred. -/
theorem StepTrace.transfers_eq_nil (h : StepTrace e maxTokens mode cs (.ok inv))
    (hmode : mode.textMode = true) : transfers cs = [] := by
  cases h with
  | text => rfl
  | cache hm | refused _ hm | reinvoked _ hm | startedOver _ _ hm | startedOverRefused _ _ hm =>
    rw [hmode] at hm
    cases hm

/-- A loop does not leave text mode. -/
theorem StepTrace.textMode_mono (h : StepTrace e maxTokens mode cs (.ok inv))
    (hmode : mode.textMode = true) : inv.textMode = true := by
  cases h with
  | text htext hr => rw [hr.ok_inv.2.1, htext, hmode, Bool.or_true]
  | cache hm | refused _ hm | reinvoked _ hm | startedOver _ _ hm | startedOverRefused _ _ hm =>
    rw [hmode] at hm
    cases hm

/-- A first iteration that leaves text mode off made a transfer. -/
theorem StepTrace.transfers_ne_nil (h : StepTrace e maxTokens mode cs (.ok inv))
    (hfirst : mode.first = true) (hmode : inv.textMode = false) : transfers cs ≠ [] := by
  cases h with
  | text htext hr =>
    rw [hr.ok_inv.2.1, htext, hfirst] at hmode
    cases hmode
  | cache | refused | reinvoked | startedOver | startedOverRefused =>
    simp

/-- All inferences of an iteration are the expert's own. -/
theorem StepTrace.expert_eq (h : StepTrace e maxTokens mode cs (.ok inv)) :
    ∀ c ∈ inferences cs, c.expert = e := by
  cases h <;> simp

/-- An iteration infers once or twice. It is once exactly when its inferences returned and, past
the first iteration, its transfer did too. -/
theorem StepTrace.length_inferences_eq_one_iff (h : StepTrace e maxTokens mode cs (.ok inv)) :
    (inferences cs).length = 1 ↔
      (mode.first = false → ∀ c ∈ transfers cs, c.op.raised = false) ∧
        ∀ c ∈ inferences cs, c.op.raised = false := by
  cases h with
  | text _ hr | cache _ _ hr =>
    rw [hr.ok_inv.1]
    simp
  | refused hfirst _ _ hr =>
    rw [hr.ok_inv.1]
    simp [hfirst]
  | reinvoked hfirst _ hr | startedOver hfirst _ _ hr | startedOverRefused hfirst _ _ hr =>
    rw [hr.ok_inv.1]
    simp [hfirst]

end Step

/-! ## What a run meters -/

/-- An expert is found under its own name. -/
theorem Pipeline.name_of_find {p : Pipeline σ} {name : String} {e : Expert σ}
    (h : p.find name = some e) : e.name = name := by
  simpa using List.find?_some h

/-- The metrics of a run over `names`: one record for each name, and the parameters they sum to. -/
structure Metered (base : Pipeline σ) (names : List String) (st : Progress) : Prop where
  perExpert : st.perExpert = st.metrics.expertMetrics
  expertNames : st.metrics.expertMetrics.map (·.expertName) = names
  params : st.metrics.expertMetrics.map (·.paramsM) = (names.filterMap base.find).map (·.paramsM)
  total : st.metrics.totalParamsInvokedM = (st.metrics.expertMetrics.map (·.paramsM)).sum

/-- No transfer but the run's first raised, and no inference did. -/
def Undisturbed (cs : List (Call σ)) : Prop :=
  (∀ c ∈ (transfers cs).tail, c.op.raised = false) ∧ ∀ c ∈ inferences cs, c.op.raised = false

instance (cs : List (Call σ)) : Decidable (Undisturbed cs) := inferInstanceAs (Decidable (_ ∧ _))

section Run

variable {ph : Phase σ} {prompt : String} {kwargs : Kwargs} {names : List String}
  {cs : List (Call σ)} {st : Progress} {textMode : Bool}

/-- The metrics of a loop are those of its experts, one after the other. -/
theorem Phase.Reaches.metered (h : ph.Reaches prompt kwargs names cs st textMode) :
    Metered ph.base names st := by
  induction h with
  | start => exact ⟨rfl, rfl, rfl, rfl⟩
  | step hreach hiter ih =>
    obtain ⟨hfind, htrace, ⟨⟨read, written, hmetrics⟩, hperExpert, -, -⟩⟩ := hiter
    obtain ⟨usedKV, succeeded, hmeters⟩ := htrace.meters
    refine ⟨?_, ?_, ?_, ?_⟩
    · rw [hperExpert, hmetrics, ih.perExpert]
      rfl
    · rw [hmetrics, AggregateMetrics.add, List.map_append, ih.expertNames, List.map_singleton,
        hmeters.expertName, Pipeline.name_of_find hfind]
    · rw [hmetrics, AggregateMetrics.add, List.map_append, ih.params, List.map_singleton,
        hmeters.paramsM, List.filterMap_append, List.map_append]
      simp [hfind]
    · rw [hmetrics, AggregateMetrics.add, List.map_append, List.sum_append, ih.total]
      simp

/-- The tokens of a run are those of its records. -/
theorem Phase.Reaches.totalTokens_eq (h : ph.Reaches prompt kwargs names cs st textMode) :
    st.metrics.totalTokens = (st.perExpert.map (·.totalTokens)).sum := by
  induction h with
  | start => rfl
  | step hreach hiter ih =>
    obtain ⟨-, -, ⟨⟨read, written, hmetrics⟩, hperExpert, -, -⟩⟩ := hiter
    rw [hperExpert, List.map_append, List.sum_append, ← ih, hmetrics, List.map_singleton,
      List.sum_singleton]
    simp only [AggregateMetrics.totalTokens, AggregateMetrics.add, ExpertMetrics.totalTokens]
    omega

/-- The transfers of a run are those of its records. -/
theorem Phase.Reaches.kvCacheTransfers_eq (h : ph.Reaches prompt kwargs names cs st textMode) :
    st.metrics.kvCacheTransfers = st.perExpert.countP (·.usedKVCache) := by
  induction h with
  | start => rfl
  | @step done cs cs' st st' textMode _ name hreach hiter ih =>
    obtain @⟨e, inv, -, -, ⟨⟨read, written, hmetrics⟩, hperExpert, -, -⟩⟩ := hiter
    rw [hperExpert, List.countP_append, ← ih, hmetrics]
    simp only [AggregateMetrics.add, List.countP_singleton]
    split <;> rfl

/-- A loop past its first iteration that is not in text mode has made a transfer. -/
theorem Phase.Reaches.transfers_ne_nil (h : ph.Reaches prompt kwargs names cs st textMode)
    (hnames : names ≠ []) (hmode : textMode = false) : transfers cs ≠ [] := by
  induction h with
  | start => exact absurd rfl hnames
  | @step done cs cs' st st' textMode _ name hreach hiter ih =>
    obtain ⟨hfind, htrace, -⟩ := hiter
    rw [transfers_append]
    by_cases hdone : done = []
    · have hfirst := htrace.transfers_ne_nil (by simp [hdone]) hmode
      exact fun h => hfirst (List.append_eq_nil_iff.mp h).2
    · cases hprev : textMode with
      | false =>
        have hmade := ih hdone hprev
        exact fun h => hmade (List.append_eq_nil_iff.mp h).1
      | true =>
        rw [htrace.textMode_mono hprev] at hmode
        cases hmode

/-- An iteration keeps a run undisturbed exactly when it infers once. -/
theorem Phase.Iterated.undisturbed_append {name : String} {cs' : List (Call σ)} {st' : Progress}
    {textMode' : Bool} (hreach : ph.Reaches prompt kwargs names cs st textMode)
    (hiter : ph.Iterated names.isEmpty name st textMode cs' st' textMode') :
    Undisturbed (cs ++ cs') ↔ Undisturbed cs ∧ (inferences cs').length = 1 := by
  obtain ⟨hfind, htrace, -⟩ := hiter
  rw [htrace.length_inferences_eq_one_iff]
  simp only [Undisturbed, inferences_append, transfers_append, List.mem_append, or_imp,
    forall_and]
  by_cases hnames : names = []
  · -- the first transfer of the run is this iteration's
    have hcs : cs = [] := by
      rw [hnames] at hreach
      exact hreach.calls_of_nil
    have htail : (transfers cs').tail = [] := by
      rw [← List.length_eq_zero_iff, List.length_tail]
      have := htrace.length_transfers_le
      omega
    simp [hcs, hnames, htail]
  -- A loop in KV mode has transferred before, so that all transfers now are later ones.
  · cases hmode : textMode with
    | true =>
      rw [htrace.transfers_eq_nil hmode]
      simp
      tauto
    | false =>
      have hmade := hreach.transfers_ne_nil hnames hmode
      rw [List.tail_append_of_ne_nil hmade]
      simp [hnames, or_imp, forall_and]
      tauto

/-- A run records at most as many invocations as it made inferences, and as many exactly when it is
undisturbed; then record and inference correspond one to one. -/
theorem Phase.Reaches.inferences_metered (h : ph.Reaches prompt kwargs names cs st textMode) :
    st.metrics.expertMetrics.length ≤ (inferences cs).length ∧
      (st.metrics.expertMetrics.length = (inferences cs).length ↔ Undisturbed cs) ∧
      (Undisturbed cs →
        (inferences cs).map (·.expert.paramsM) = st.metrics.expertMetrics.map (·.paramsM)) := by
  induction h with
  | start => simp [Undisturbed]
  | @step done cs cs' st st' textMode _ name hreach hiter ih =>
    obtain ⟨hle, heq, hparams⟩ := ih
    rw [hiter.undisturbed_append hreach]
    obtain ⟨hfind, htrace, ⟨⟨read, written, hmetrics⟩, -, -, -⟩⟩ := hiter
    obtain ⟨usedKV, succeeded, hmeters⟩ := htrace.meters
    have hpos : 0 < (inferences cs').length :=
      List.length_pos_iff.mpr htrace.inferences_ne_nil
    have hlength : st'.metrics.expertMetrics.length = st.metrics.expertMetrics.length + 1 := by
      rw [hmetrics, AggregateMetrics.add, List.length_append, List.length_singleton]
    rw [hlength, inferences_append, List.length_append, ← heq]
    refine ⟨by omega, by omega, ?_⟩
    rintro ⟨hclean, hone⟩
    obtain ⟨c, hc⟩ := List.length_eq_one_iff.mp hone
    have hexpert := htrace.expert_eq c (by simp [hc])
    rw [List.map_append, hparams (heq.mp hclean), hc, hmetrics, AggregateMetrics.add,
      List.map_append, List.map_singleton, List.map_singleton, hmeters.paramsM, hexpert]

end Run

/-- Encodings disturb nothing. -/
theorem undisturbed_handoffs (s : RunState σ μ) :
    Undisturbed (handoffs s) ↔ Undisturbed s.calls := by
  rw [Undisturbed, Undisturbed, inferences_handoffs, transfers_handoffs]

/-- Every inference of a run is metered exactly once if and only if no transfer but the run's first
raised and no inference did. -/
theorem AnyPipeline.metered_once_iff [Memory μ] (p : AnyPipeline σ) (prompt : String)
    (kwargs : Kwargs) (s s' : RunState σ μ) (result : PipelineResult) (hs : s.calls = [])
    (hrun : p.run prompt kwargs s = .ok result s') :
    ((inferences s'.calls).length = result.metrics.expertMetrics.length ∧
        result.metrics.totalParamsInvokedM =
          ((inferences s'.calls).map (·.expert.paramsM)).sum) ↔
      Undisturbed s'.calls := by
  obtain ⟨-, ⟨hreach, hmetrics, -, -, -⟩⟩ := run_returns hs hrun
  obtain ⟨-, hlength, hparams⟩ := hreach.inferences_metered
  rw [inferences_handoffs, undisturbed_handoffs] at *
  rw [hmetrics]
  simp only [AggregateMetrics.finalize]
  constructor
  · rintro ⟨hcount, -⟩
    exact hlength.mp hcount.symm
  · intro hclean
    refine ⟨(hlength.mpr hclean).symm, ?_⟩
    rw [hreach.metered.total, hparams hclean]

/-- Two experts that hand over a cache. -/
theorem AnyPipeline.metered_once_duo : ∃ result s',
    (AnyPipeline.kvPass (duoKVPass {} {})).run "p" {} idle = .ok result s' ∧
      (inferences s'.calls).length = result.metrics.expertMetrics.length ∧
      result.metrics.totalParamsInvokedM =
        ((inferences s'.calls).map (·.expert.paramsM)).sum := by
  obtain ⟨result, s', hrun, hclean⟩ := Returned.exists
    (P := fun _ s' => Undisturbed s'.calls)
    (r := (AnyPipeline.kvPass (duoKVPass {} {})).run "p" {} idle) (by decide +kernel)
  exact ⟨result, s', hrun, (metered_once_iff _ _ _ _ _ _ rfl hrun).mpr hclean⟩

/-- The second expert refuses the cache: it infers on the cache's text and again on the previous
output, and one of the two is metered. -/
theorem AnyPipeline.metered_twice : ∃ result s',
    (AnyPipeline.kvPass (duoKVPass {} refusing)).run "p" {} idle = .ok result s' ∧
      ¬((inferences s'.calls).length = result.metrics.expertMetrics.length ∧
        result.metrics.totalParamsInvokedM =
          ((inferences s'.calls).map (·.expert.paramsM)).sum) :=
  Returned.exists (by decide +kernel)

/-! ## Transfers and the latent nuance score -/

/-- The transfers of a trace that returned a cache. -/
def returnedTransfers (cs : List (Call σ)) : ℕ := (transfers cs).countP fun c => !c.op.raised

/-- The `decode` calls of a trace that raised. -/
def failedDecodes (cs : List (Call σ)) : ℕ :=
  (inferences cs).countP fun c => c.op.isDecode && c.op.raised

/-- The transfers that returned, in a trace that is cut. -/
theorem returnedTransfers_append (cs ds : List (Call σ)) :
    returnedTransfers (cs ++ ds) = returnedTransfers cs + returnedTransfers ds := by
  rw [returnedTransfers, transfers_append, List.countP_append, returnedTransfers, returnedTransfers]

/-- The decodes that raised, in a trace that is cut. -/
theorem failedDecodes_append (cs ds : List (Call σ)) :
    failedDecodes (cs ++ ds) = failedDecodes cs + failedDecodes ds := by
  rw [failedDecodes, inferences_append, List.countP_append, failedDecodes, failedDecodes]

/-- How one iteration's transfer and `decode` show in the metrics it records. -/
structure KVMetered (mode : StepMode) (cs : List (Call σ)) (inv : Invocation) : Prop where
  transfers : returnedTransfers cs = (if inv.metrics.usedKVCache then 1 else 0) + failedDecodes cs
  succeeded : inv.metrics.usedKVCache = true → inv.metrics.cacheTransferSucceeded = true
  textMode : inv.metrics.usedKVCache = true → mode.textMode = false
  failed : failedDecodes cs ≠ 0 →
    inv.metrics.usedKVCache = false ∧ mode.first = true ∧ inv.textMode = true

/-- The metrics of a step say what its calls did. -/
theorem StepTrace.kvMetered {e : Expert σ} {maxTokens : ℤ} {mode : StepMode} {cs : List (Call σ)}
    {inv : Invocation} (h : StepTrace e maxTokens mode cs (.ok inv)) : KVMetered mode cs inv := by
  cases h with
  | text _ hr | reinvoked _ _ hr | refused _ _ _ hr =>
    obtain ⟨hres, hmode, hm⟩ := hr.ok_inv
    rw [hres]
    refine ⟨?_, ?_, ?_, ?_⟩ <;>
      simp [returnedTransfers, failedDecodes, hm.usedKVCache]
  | cache htext _ hr =>
    obtain ⟨hres, hmode, hm⟩ := hr.ok_inv
    rw [hres]
    refine ⟨?_, ?_, ?_, ?_⟩ <;>
      simp [returnedTransfers, failedDecodes, hm.usedKVCache, hm.cacheTransferSucceeded, htext]
  | startedOver hfirst _ _ hr | startedOverRefused hfirst _ _ hr =>
    obtain ⟨hres, hmode, hm⟩ := hr.ok_inv
    rw [hres]
    refine ⟨?_, ?_, ?_, ?_⟩ <;>
      simp [returnedTransfers, failedDecodes, hm.usedKVCache, hfirst, hmode]

/-- What a run's KV counters say of its trace. `add` never counts a failure, since `invoke` clears
`used_kv_cache` when a transfer fails. -/
structure KVCounted (cs : List (Call σ)) (a : AggregateMetrics) (textMode : Bool) : Prop where
  failures : a.kvCacheFailures = 0
  score : a.latentNuanceScore = 0
  succeeded : a.kvOk = a.kvUsed
  returned : returnedTransfers cs = a.kvUsed + failedDecodes cs
  failed : failedDecodes cs ≠ 0 → a.kvUsed = 0 ∧ textMode = true

namespace AggregateMetrics

variable (a : AggregateMetrics) (m : ExpertMetrics)

/-- One more use of a cache is counted. -/
theorem kvUsed_add : (a.add m).kvUsed = a.kvUsed + if m.usedKVCache then 1 else 0 := by
  rw [kvUsed, kvUsed, add, List.countP_append, List.countP_singleton]

/-- One more transfer that succeeded is counted. -/
theorem kvOk_add : (a.add m).kvOk =
    a.kvOk + if m.usedKVCache && m.cacheTransferSucceeded then 1 else 0 := by
  rw [kvOk, kvOk, add, List.countP_append, List.countP_singleton]

end AggregateMetrics

/-- One more iteration. -/
theorem KVCounted.snoc {mode : StepMode} {cs cs' : List (Call σ)} {a : AggregateMetrics}
    {inv : Invocation} (h : KVCounted cs a mode.textMode) (hkv : KVMetered mode cs' inv)
    (hfirst : mode.first = true → a.expertMetrics = [])
    (hmono : mode.textMode = true → inv.textMode = true) :
    KVCounted (cs ++ cs') (a.add inv.metrics) inv.textMode := by
  -- a cache that was used was transferred
  have hok : (inv.metrics.usedKVCache && inv.metrics.cacheTransferSucceeded) =
      inv.metrics.usedKVCache := by
    cases hu : inv.metrics.usedKVCache with
    | true => rw [hkv.succeeded hu]; rfl
    | false => rfl
  have hnone : (inv.metrics.usedKVCache && !inv.metrics.cacheTransferSucceeded) = false := by
    cases hu : inv.metrics.usedKVCache with
    | true => rw [hkv.succeeded hu]; rfl
    | false => rfl
  refine ⟨?_, h.score, ?_, ?_, ?_⟩
  · simp [AggregateMetrics.add, hnone, h.failures]
  · rw [a.kvUsed_add, a.kvOk_add, hok, h.succeeded]
  · rw [returnedTransfers_append, failedDecodes_append, h.returned, hkv.transfers, a.kvUsed_add]
    omega
  · intro hfailed
    rw [a.kvUsed_add]
    by_cases hbefore : failedDecodes cs = 0
    · -- the decode that raised is this iteration's, and this iteration is the first
      have hnow : failedDecodes cs' ≠ 0 := by
        rw [failedDecodes_append] at hfailed
        omega
      obtain ⟨hu, hisFirst, hmode⟩ := hkv.failed hnow
      refine ⟨?_, hmode⟩
      rw [hu, AggregateMetrics.kvUsed, hfirst hisFirst]
      rfl
    · obtain ⟨hzero, hmode⟩ := h.failed hbefore
      refine ⟨?_, hmono hmode⟩
      cases hu : inv.metrics.usedKVCache with
      | true =>
        have hoff := hkv.textMode hu
        rw [hmode] at hoff
        cases hoff
      | false => rw [hzero]; rfl

/-- The counters of a loop are those of its calls. -/
theorem Phase.Reaches.kvCounted {ph : Phase σ} {prompt : String} {kwargs : Kwargs}
    {names : List String} {cs : List (Call σ)} {st : Progress} {textMode : Bool}
    (h : ph.Reaches prompt kwargs names cs st textMode) :
    KVCounted cs st.metrics textMode := by
  induction h with
  | start => exact ⟨rfl, rfl, rfl, rfl, fun h => absurd rfl h⟩
  | @step done cs cs' st st' textMode _ name hreach hiter ih =>
    obtain @⟨e, inv, -, htrace, ⟨⟨read, written, hmetrics⟩, -, -, -⟩⟩ := hiter
    have hempty (hfirst : done.isEmpty = true) : st.metrics.expertMetrics = [] := by
      have hnames := hreach.metered.expertNames
      rw [List.isEmpty_iff.mp hfirst] at hnames
      exact List.map_eq_nil_iff.mp hnames
    have hcounted := KVCounted.snoc ih htrace.kvMetered hempty htrace.textMode_mono
    rw [hmetrics]
    exact ⟨hcounted.failures, hcounted.score, hcounted.succeeded, hcounted.returned,
      hcounted.failed⟩

/-- The KV metrics of a result tell what happened to the transfers of a trace. -/
def KVFaithful (cs : List (Call σ)) (a : AggregateMetrics) : Prop :=
  a.kvCacheFailures = (transfers cs).countP (·.op.raised) ∧
    (transfers cs ≠ [] → a.latentNuanceScore = returnedTransfers cs / (transfers cs).length)

/-- A transfer raises or returns. -/
theorem countP_raised_add_returned (cs : List (Call σ)) :
    (transfers cs).countP (·.op.raised) + returnedTransfers cs = (transfers cs).length := by
  rw [List.length_eq_countP_add_countP (·.op.raised), returnedTransfers]
  congr 2
  funext c
  simp

/-- No transfer raised. -/
theorem raised_eq_zero_iff (cs : List (Call σ)) :
    (transfers cs).countP (·.op.raised) = 0 ↔ ∀ c ∈ transfers cs, c.op.raised = false := by
  simp only [List.countP_eq_zero, Bool.not_eq_true]

/-- No decode raised. -/
theorem failedDecodes_eq_zero_iff (cs : List (Call σ)) :
    failedDecodes cs = 0 ↔ ∀ c ∈ inferences cs, c.op.isDecode = true → c.op.raised = false := by
  simp only [failedDecodes, List.countP_eq_zero, Bool.and_eq_true, not_and, Bool.not_eq_true]

/-- The score is 1 or, when no invocation used a cache, 0. -/
theorem KVCounted.score_finalize {cs : List (Call σ)} {a : AggregateMetrics} {textMode : Bool}
    (h : KVCounted cs a textMode) (experts : List (Expert σ)) :
    (a.finalize experts).latentNuanceScore = if 0 < a.kvUsed then 1 else 0 := by
  simp only [AggregateMetrics.finalize, h.score, h.succeeded]
  split
  · rename_i hpos
    have hne : (a.kvUsed : ℚ) ≠ 0 := by exact_mod_cast hpos.ne'
    exact div_self hne
  · rfl

/-- The metrics are faithful if and only if no transfer and no decode raised. -/
theorem KVCounted.faithful_iff {cs : List (Call σ)} {a : AggregateMetrics} {textMode : Bool}
    (h : KVCounted cs a textMode) (experts : List (Expert σ)) :
    KVFaithful cs (a.finalize experts) ↔
      (transfers cs).countP (·.op.raised) = 0 ∧ failedDecodes cs = 0 := by
  have hsum := countP_raised_add_returned cs
  have hreturned := h.returned
  have hfailed := h.failed
  have hne : transfers cs ≠ [] ↔ (transfers cs).length ≠ 0 := by
    rw [ne_eq, ne_eq, List.length_eq_zero_iff]
  have hfailures : (a.finalize experts).kvCacheFailures = 0 := h.failures
  rw [KVFaithful, hfailures, h.score_finalize experts, hne]
  constructor
  · rintro ⟨hraised, hscore⟩
    refine ⟨hraised.symm, ?_⟩
    by_contra hfail
    -- a `decode` raised: its transfer returned, and the score is nevertheless 0
    have hpos : (transfers cs).length ≠ 0 := by omega
    have hall : returnedTransfers cs = (transfers cs).length := by omega
    have hcast : ((transfers cs).length : ℚ) ≠ 0 := by exact_mod_cast hpos
    have hone := hscore hpos
    rw [(hfailed hfail).1, hall, div_self hcast] at hone
    simp at hone
  · rintro ⟨hraised, hfail⟩
    refine ⟨hraised.symm, fun hpos => ?_⟩
    have hall : returnedTransfers cs = (transfers cs).length := by omega
    have hused : 0 < a.kvUsed := by omega
    have hcast : ((transfers cs).length : ℚ) ≠ 0 := by exact_mod_cast hpos
    rw [if_pos hused, hall, div_self hcast]

/-- The KV metrics of a run are faithful if and only if none of its transfers raised and none of
its `decode` calls did. -/
theorem AnyPipeline.kv_faithful_iff [Memory μ] (p : AnyPipeline σ) (prompt : String)
    (kwargs : Kwargs) (s s' : RunState σ μ) (result : PipelineResult) (hs : s.calls = [])
    (hrun : p.run prompt kwargs s = .ok result s') :
    KVFaithful s'.calls result.metrics ↔
      (∀ c ∈ transfers s'.calls, c.op.raised = false) ∧
        ∀ c ∈ inferences s'.calls, c.op.isDecode = true → c.op.raised = false := by
  obtain ⟨-, ⟨hreach, hmetrics, -, -, -⟩⟩ := run_returns hs hrun
  have hiff := hreach.kvCounted.faithful_iff
    (result.selectedExperts.filterMap p.phase.base.find)
  rw [← hmetrics, raised_eq_zero_iff, failedDecodes_eq_zero_iff] at hiff
  simpa only [KVFaithful, returnedTransfers, transfers_handoffs, inferences_handoffs] using hiff

/-- Two experts that hand over a cache. -/
theorem AnyPipeline.kv_faithful_duo : ∃ result s',
    (AnyPipeline.kvPass (duoKVPass {} {})).run "p" {} idle = .ok result s' ∧
      KVFaithful s'.calls result.metrics := by
  obtain ⟨result, s', hrun, hclean⟩ := Returned.exists
    (P := fun _ s' => (∀ c ∈ transfers s'.calls, c.op.raised = false) ∧
      ∀ c ∈ inferences s'.calls, c.op.isDecode = true → c.op.raised = false)
    (r := (AnyPipeline.kvPass (duoKVPass {} {})).run "p" {} idle) (by decide +kernel)
  exact ⟨result, s', hrun, (kv_faithful_iff _ _ _ _ _ _ rfl hrun).mpr hclean⟩

/-- One of two transfers raises, and the run reports no failure and a perfect score. -/
theorem AnyPipeline.kv_unfaithful : ∃ result s',
    (AnyPipeline.kvPass (duoKVPass {} refusing)).run "p" {} idle = .ok result s' ∧
      ¬KVFaithful s'.calls result.metrics := by
  obtain ⟨result, s', hrun, hne⟩ := Returned.exists
    (P := fun result s' =>
      result.metrics.kvCacheFailures ≠ (transfers s'.calls).countP (·.op.raised))
    (r := (AnyPipeline.kvPass (duoKVPass {} refusing)).run "p" {} idle) (by decide +kernel)
  exact ⟨result, s', hrun, fun h => hne h.1⟩

/-! ## Repeated experts and the EPU -/

/-- The sum over a list's distinct elements is the whole sum exactly when no element that counts
occurs twice. -/
theorem sum_map_dedup_eq_iff {α : Type} [DecidableEq α] (f : α → ℕ) (l : List α) :
    (l.dedup.map f).sum = (l.map f).sum ↔ ∀ a ∈ l, 0 < f a → l.count a ≤ 1 := by
  have hdedup : (l.dedup.map f).sum = ∑ a ∈ l.toFinset, f a := by
    rw [← List.sum_toFinset f (List.nodup_dedup l)]
    exact Finset.sum_congr (by ext; simp) fun _ _ => rfl
  have hle : ∀ a ∈ l.toFinset, f a ≤ l.count a * f a := by
    intro a ha
    have hpos : 0 < l.count a := List.count_pos_iff.mpr (List.mem_toFinset.mp ha)
    exact Nat.le_mul_of_pos_left _ hpos
  rw [hdedup, Finset.sum_list_map_count]
  simp only [smul_eq_mul]
  -- term by term: `f a = count a * f a`
  rw [Finset.sum_eq_sum_iff_of_le hle]
  refine forall_congr' fun a => ?_
  rw [List.mem_toFinset]
  refine imp_congr_right fun ha => ?_
  have hpos : 0 < l.count a := List.count_pos_iff.mpr ha
  constructor
  · intro heq hf
    have hone : l.count a = 1 := Nat.eq_of_mul_eq_mul_right hf (by omega)
    omega
  · intro hcount
    rcases Nat.eq_zero_or_pos (f a) with hzero | hf
    · rw [hzero, Nat.mul_zero]
    · have hone : l.count a = 1 := by
        have := hcount hf
        omega
      rw [hone, Nat.one_mul]

/-- The distinct experts behind a list of names. -/
def Pipeline.distinctExperts (p : Pipeline σ) (names : List String) : List (Expert σ) :=
  names.dedup.filterMap p.find

/-- No expert with parameters is invoked more than once. -/
def NoReinvocation (p : Pipeline σ) (names : List String) : Prop :=
  ∀ n ∈ names, ∀ e, p.find n = some e → 0 < e.paramsM → names.count n ≤ 1

/-- The capacity-utilization law: the distinct parameters are those of the distinct experts, the EPU
is at most 1, and it is 1 exactly without re-invocation. -/
structure UtilizationLaw (p : Pipeline σ) (names : List String) (a : AggregateMetrics) : Prop where
  distinct : a.distinctParamsInvokedM = ((p.distinctExperts names).map (·.paramsM)).sum
  epu_le_one : a.epu ≤ 1
  epu_eq_one : 0 < a.totalParamsInvokedM → (a.epu = 1 ↔ NoReinvocation p names)

/-- The parameters a name stands for. -/
def Pipeline.paramsOf (p : Pipeline σ) (name : String) : ℕ :=
  ((p.find name).map (·.paramsM)).getD 0

/-- The parameters of the experts of a list of names. -/
theorem Pipeline.sum_paramsM (p : Pipeline σ) (names : List String) :
    ((names.filterMap p.find).map (·.paramsM)).sum = (names.map p.paramsOf).sum := by
  induction names with
  | nil => rfl
  | cons n ns ih =>
    rw [List.filterMap_cons, List.map_cons, List.sum_cons, ← ih, paramsOf]
    cases p.find n with
    | none => simp
    | some e => simp

/-- No expert with parameters comes twice if and only if all parameters invoked are distinct. -/
theorem noReinvocation_iff (p : Pipeline σ) (names : List String) :
    NoReinvocation p names ↔
      ((p.distinctExperts names).map (·.paramsM)).sum =
        ((names.filterMap p.find).map (·.paramsM)).sum := by
  rw [Pipeline.distinctExperts, p.sum_paramsM, p.sum_paramsM, sum_map_dedup_eq_iff]
  refine forall₂_congr fun n _ => ?_
  unfold Pipeline.paramsOf
  cases p.find n with
  | none => simp
  | some e => simp

/-- `finalize` is given the sequence with its repetitions, so the EPU is 1 whatever is repeated. -/
theorem Metered.epu_finalize {p : Pipeline σ} {names : List String} {st : Progress}
    (h : Metered p names st) :
    (st.metrics.finalize (names.filterMap p.find)).epu =
      if st.metrics.totalParamsInvokedM = 0 then 0 else 1 := by
  have htotal := h.total
  rw [h.params] at htotal
  simp only [AggregateMetrics.epu, AggregateMetrics.finalize, ← htotal]
  split
  · rfl
  · rename_i hne
    have hcast : (st.metrics.totalParamsInvokedM : ℚ) ≠ 0 := by exact_mod_cast hne
    exact div_self hcast

/-- The utilization law holds of a finished loop if no expert with parameters comes twice. -/
theorem Metered.epu_law_iff {p : Pipeline σ} {names : List String} {st : Progress}
    (h : Metered p names st) :
    UtilizationLaw p names (st.metrics.finalize (names.filterMap p.find)) ↔
      NoReinvocation p names := by
  constructor
  · intro hlaw
    rw [noReinvocation_iff]
    exact hlaw.distinct.symm
  · intro hno
    refine ⟨((noReinvocation_iff p names).mp hno).symm, ?_, ?_⟩
    · rw [h.epu_finalize]
      split
      · exact zero_le_one
      · exact le_refl 1
    · intro hpos
      have hne : st.metrics.totalParamsInvokedM ≠ 0 := Nat.pos_iff_ne_zero.mp hpos
      rw [h.epu_finalize, if_neg hne]
      simpa using hno

/-- The capacity-utilization law holds of a run if and only if no expert with parameters occurs
twice in its sequence. -/
theorem AnyPipeline.utilizationLaw_iff [Memory μ] (p : AnyPipeline σ) (prompt : String)
    (kwargs : Kwargs) (s s' : RunState σ μ) (result : PipelineResult) (hs : s.calls = [])
    (hrun : p.run prompt kwargs s = .ok result s') :
    UtilizationLaw p.base result.selectedExperts result.metrics ↔
      NoReinvocation p.base result.selectedExperts := by
  obtain ⟨-, ⟨hreach, hmetrics, -, -, -⟩⟩ := run_returns hs hrun
  rw [hmetrics, ← p.phase_base]
  exact hreach.metered.epu_law_iff

instance (p : Pipeline σ) (names : List String) : Decidable (NoReinvocation p names) :=
  decidable_of_iff' _ (noReinvocation_iff p names)

/-- Two distinct experts. -/
theorem AnyPipeline.utilizationLaw_duo : ∃ result s',
    (AnyPipeline.kvPass (duoKVPass {} {})).run "p" {} idle = .ok result s' ∧
      UtilizationLaw (duo {} {}) result.selectedExperts result.metrics := by
  obtain ⟨result, s', hrun, hno⟩ := Returned.exists
    (P := fun result _ => NoReinvocation (duo {} {}) result.selectedExperts)
    (r := (AnyPipeline.kvPass (duoKVPass {} {})).run "p" {} idle) (by decide +kernel)
  exact ⟨result, s', hrun, (utilizationLaw_iff _ _ _ _ _ _ rfl hrun).mpr hno⟩

/-- Draft, review, revise: the first expert comes back, and its parameters count as distinct ones
twice. -/
theorem AnyPipeline.reinvocation_unseen : ∃ result s',
    (AnyPipeline.cascade (duoCascade {} {})).run "p" {} idle = .ok result s' ∧
      ¬UtilizationLaw (duo {} {}) result.selectedExperts result.metrics := by
  obtain ⟨result, s', hrun, hne⟩ := Returned.exists
    (P := fun result _ => result.metrics.distinctParamsInvokedM ≠
      (((duo {} {}).distinctExperts result.selectedExperts).map (·.paramsM)).sum)
    (r := (AnyPipeline.cascade (duoCascade {} {})).run "p" {} idle) (by decide +kernel)
  exact ⟨result, s', hrun, fun h => hne h.distinct⟩

end Chen
