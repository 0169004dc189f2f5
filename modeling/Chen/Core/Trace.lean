import Chen.Core.Pipeline
import Chen.Library.Simulation

/-!
# What a run puts on its trace

The laws of a run are about three kinds of call: `generate`, `decode` and `transfer_cache`. This
file says once which of them an invocation and a loop iteration make, in which order, and with
which result. `encode` and `count_tokens` calls are filtered out of the trace here.
-/

namespace Chen

open Effect

@[simp] theorem isOk_ok {ε α : Type} (a : α) : (Except.ok a : Except ε α).isOk = true := rfl

@[simp] theorem isOk_error {ε α : Type} (e : ε) : (Except.error e : Except ε α).isOk = false := rfl

namespace Op

/-- A `generate` or a `decode` call: one inference. -/
@[simp] def isInference : Op → Bool
  | .generate .. => true
  | .decode .. => true
  | _ => false

@[simp] def isGenerate : Op → Bool
  | .generate .. => true
  | _ => false

@[simp] def isDecode : Op → Bool
  | .decode .. => true
  | _ => false

@[simp] def isTransfer : Op → Bool
  | .transferCache .. => true
  | _ => false

/-- The call raised. -/
@[simp] def raised : Op → Bool
  | .generate _ _ r => !r.isOk
  | .encode _ r => !r.isOk
  | .decode _ _ r => !r.isOk
  | .transferCache _ r => !r.isOk
  | .countTokens _ r => !r.isOk

/-- The token budget the call was given. -/
@[simp] def maxTokens : Op → Option ℤ
  | .generate _ m _ => some m
  | .decode _ m _ => some m
  | _ => none

end Op

variable {σ μ : Type}

/-- The inferences of a trace. -/
def inferences (cs : List (Call σ)) : List (Call σ) := cs.filter (·.op.isInference)

/-- The `transfer_cache` calls of a trace. -/
def transfers (cs : List (Call σ)) : List (Call σ) := cs.filter (·.op.isTransfer)

/-- A call that the laws of a run are about. -/
def Call.isHandoff (c : Call σ) : Bool := c.op.isInference || c.op.isTransfer

/-- The `generate`, `decode` and `transfer_cache` calls of a run so far. -/
def handoffs (s : RunState σ μ) : List (Call σ) := s.calls.filter Call.isHandoff

/-- The trace without encodings has all inferences. -/
theorem inferences_handoffs (s : RunState σ μ) : inferences (handoffs s) = inferences s.calls := by
  simp only [inferences, handoffs, List.filter_filter]
  congr 1
  funext c
  simp only [Call.isHandoff]
  cases c.op.isInference <;> simp

/-- The trace without encodings has all transfers. -/
theorem transfers_handoffs (s : RunState σ μ) : transfers (handoffs s) = transfers s.calls := by
  simp only [transfers, handoffs, List.filter_filter]
  congr 1
  funext c
  simp only [Call.isHandoff]
  cases c.op.isTransfer <;> simp

@[simp] theorem inferences_nil : inferences ([] : List (Call σ)) = [] := rfl

@[simp] theorem transfers_nil : transfers ([] : List (Call σ)) = [] := rfl

/-- The inferences of a trace, call by call. -/
@[simp] theorem inferences_cons (c : Call σ) (cs : List (Call σ)) :
    inferences (c :: cs) = if c.op.isInference then c :: inferences cs else inferences cs :=
  List.filter_cons

/-- The transfers of a trace, call by call. -/
@[simp] theorem transfers_cons (c : Call σ) (cs : List (Call σ)) :
    transfers (c :: cs) = if c.op.isTransfer then c :: transfers cs else transfers cs :=
  List.filter_cons

@[simp] theorem inferences_append (cs ds : List (Call σ)) :
    inferences (cs ++ ds) = inferences cs ++ inferences ds := List.filter_append ..

@[simp] theorem transfers_append (cs ds : List (Call σ)) :
    transfers (cs ++ ds) = transfers cs ++ transfers ds := List.filter_append ..

/-! ## Single operations -/

/-- Reading the clock calls no backend. -/
theorem perfCounter_emits :
    Emits handoffs (perfCounter : Run σ μ ℚ) fun cs r => cs = [] ∧ ∃ t, r = .ok t ∧ True :=
  Emits.silent (fun _ => rfl) fun s => ⟨rfl, s.clock s.ticks, rfl, trivial⟩

/-- `timed` adds nothing to the trace and passes value and exception on. -/
theorem timed_bind_emits {α β : Type} {x : Run σ μ α} {f : α × ℚ → Run σ μ β}
    {Φ : List (Call σ) → Except Exn α → Prop} {Ψ : List (Call σ) → Except Exn β → Prop}
    (hx : Emits handoffs x Φ)
    (hf : ∀ cs a ms, Φ cs (.ok a) → Emits handoffs (f (a, ms)) fun cs' r => Ψ (cs ++ cs') r)
    (herr : ∀ cs e, Φ cs (.error e) → Ψ cs (.error e)) :
    Emits handoffs (timed x >>= f) Ψ := by
  simp only [timed, bind_assoc, pure_bind]
  refine perfCounter_emits.bind_silent fun t0 _ => hx.bind ?_ herr
  intro cs a ha
  exact perfCounter_emits.bind_silent fun t1 _ => hf cs a _ ha

/-- A backend call ends as the backend does, and is on the trace with that result. -/
theorem Expert.call_emits (e : Expert σ) {α : Type} (op : Except Exn α → Op)
    (act : EStateM Exn σ α) :
    Emits handoffs (e.call op act : Run σ μ α) fun cs r =>
      cs = [⟨e, op r⟩].filter Call.isHandoff ∧ ∃ w, r = outcome (act w) := by
  intro s
  refine ⟨_, ?_, rfl, s.world, ?_⟩
  · cases h : act s.world with
    | ok a w => simp [call, h, handoffs, List.filter_append]
    | error x w => simp [call, h, handoffs, List.filter_append]
  · cases h : act s.world with
    | ok a w => simp [call, h]
    | error x w => simp [call, h]

namespace Expert

variable (e : Expert σ)

/-- `generate` is one call. -/
theorem generate_emits (prompt : String) (maxTokens : ℤ) :
    Emits handoffs (e.generate prompt maxTokens : Run σ μ String) fun cs r =>
      cs = [⟨e, .generate prompt maxTokens r⟩] :=
  (e.call_emits _ _).mono fun _ _ h => h.1

/-- `decode` is one call. -/
theorem decode_emits (cache : KVCache) (maxTokens : ℤ) :
    Emits handoffs (e.decode cache maxTokens : Run σ μ String) fun cs r =>
      cs = [⟨e, .decode cache maxTokens r⟩] :=
  (e.call_emits _ _).mono fun _ _ h => h.1

/-- `transfer_cache` is one call. -/
theorem transferCache_emits (cache : KVCache) :
    Emits handoffs (e.transferCache cache : Run σ μ KVCache) fun cs r =>
      cs = [⟨e, .transferCache cache r⟩] :=
  (e.call_emits _ _).mono fun _ _ h => h.1

/-- An `encode` is not among the calls that are counted. -/
theorem encode_emits (prompt : String) :
    Emits handoffs (e.encode prompt : Run σ μ KVCache) fun cs _ => cs = [] :=
  (e.call_emits _ _).mono fun _ _ h => h.1

/-- An `encode` in a `try` never raises. -/
theorem attempt_encode_emits (prompt : String) :
    Emits handoffs (attempt (e.encode prompt) : Run σ μ (Except Exn KVCache)) fun cs r =>
      cs = [] ∧ ∃ c, r = .ok c ∧ True :=
  ((e.encode_emits prompt).mono fun _ r h => ⟨h, r, rfl, trivial⟩).attempt

/-! ## Invocations -/

/-- The metrics of an invocation of `e`, as far as they do not depend on the backend's answers. -/
structure Meters (usedKV succeeded : Bool) (m : ExpertMetrics) : Prop where
  expertName : m.expertName = e.name
  role : m.role = e.role
  paramsM : m.paramsM = e.paramsM
  usedKVCache : m.usedKVCache = usedKV
  cacheTransferSucceeded : m.cacheTransferSucceeded = succeeded

/-- The result of the inference decides the result of the invocation. -/
def Answers (usedKV succeeded : Bool) :
    Except Exn String → Except Exn (String × Option KVCache × ExpertMetrics) → Prop :=
  Agree fun output answer => answer.1 = output ∧ e.Meters usedKV succeeded answer.2.2

/-- Caching the answer is silent. -/
theorem outputCache_emits (text output : String) :
    Emits handoffs (e.outputCache text output : Run σ μ (Option KVCache)) fun cs r =>
      cs = [] ∧ ∃ c, r = .ok c ∧ True := by
  unfold outputCache
  split
  · refine (e.attempt_encode_emits _).bind_silent fun r _ => ?_
    cases r with
    | ok c => exact Emits.pure ⟨rfl, some c, rfl, trivial⟩
    | error x => exact Emits.pure ⟨rfl, none, rfl, trivial⟩
  · exact Emits.pure ⟨rfl, none, rfl, trivial⟩

/-- Counting tokens is silent. -/
theorem meterTokens_emits (text output : String) :
    Emits handoffs (e.meterTokens text output : Run σ μ (ℤ × ℤ)) fun cs r =>
      cs = [] ∧ ∃ toks, r = .ok toks ∧ True := by
  unfold meterTokens
  cases e.backend.countTokens with
  | none => exact Emits.pure ⟨rfl, _, rfl, trivial⟩
  | some count =>
    have hcount : ∀ s : String, Emits handoffs
        (e.call (.countTokens s) (count s) : Run σ μ ℤ) fun cs _ => cs = [] :=
      fun s => (e.call_emits _ _).mono fun _ _ h => h.1
    refine Emits.bind_silent (P := fun _ => True) (Emits.attempt ?_) fun r _ => ?_
    · refine (hcount text).bind (fun cs i hcs => ?_) fun cs x hcs => ⟨hcs, _, rfl, trivial⟩
      subst hcs
      refine (hcount output).bind (fun cs o hcs => ?_) fun cs x hcs => ⟨hcs, _, rfl, trivial⟩
      subst hcs
      exact Emits.pure ⟨rfl, _, rfl, trivial⟩
    · cases r with
      | ok toks => exact Emits.pure ⟨rfl, _, rfl, trivial⟩
      | error x => exact Emits.pure ⟨rfl, _, rfl, trivial⟩

/-- The end of an `invoke` is silent. -/
theorem conclude_emits (text output : String) (latencyMs cacheTransferMs : ℚ)
    (usedKV succeeded : Bool) :
    Emits handoffs (e.conclude text output latencyMs cacheTransferMs usedKV succeeded :
      Run σ μ (String × Option KVCache × ExpertMetrics)) fun cs r =>
        cs = [] ∧ e.Answers usedKV succeeded (.ok output) r := by
  refine (e.outputCache_emits text output).bind_silent fun cache _ => ?_
  refine (e.meterTokens_emits text output).bind_silent fun toks _ => ?_
  exact Emits.pure ⟨rfl, .ok ⟨rfl, rfl, rfl, rfl, rfl, rfl⟩⟩

/-- `invoke` on text: one `generate` call. -/
theorem invokeText_emits (text : String) (maxTokens : ℤ) :
    Emits handoffs
      (e.invokeText text maxTokens : Run σ μ (String × Option KVCache × ExpertMetrics))
      fun cs r => ∃ res, cs = [⟨e, .generate text maxTokens res⟩] ∧
        e.Answers false true res r := by
  refine timed_bind_emits (e.generate_emits text maxTokens) ?_ ?_
  · rintro cs output ms rfl
    refine (e.conclude_emits _ _ _ _ _ _).mono ?_
    rintro cs r ⟨rfl, hr⟩
    exact ⟨_, rfl, hr⟩
  · rintro cs x rfl
    exact ⟨_, rfl, .error x⟩

/-- The calls of `invoke` on a cache: a transfer, then `decode` on what it returned, or `generate`
on the text of the cache when it raised. -/
def CacheCalls (cache : KVCache) (maxTokens : ℤ) (cs : List (Call σ))
    (r : Except Exn (String × Option KVCache × ExpertMetrics)) : Prop :=
  (∃ cache' res, cs = [⟨e, .transferCache cache (.ok cache')⟩, ⟨e, .decode cache' maxTokens res⟩] ∧
    e.Answers true true res r) ∨
  (∃ x res, cs = [⟨e, .transferCache cache (.error x)⟩,
      ⟨e, .generate cache.sourceText maxTokens res⟩] ∧ e.Answers false false res r)

/-- The calls of an `invoke` on a cache. -/
theorem invokeCache_emits (cache : KVCache) (maxTokens : ℤ) :
    Emits handoffs
      (e.invokeCache cache maxTokens : Run σ μ (String × Option KVCache × ExpertMetrics))
      (e.CacheCalls cache maxTokens) := by
  have htransfer : Emits handoffs
      (attempt (e.transferCache cache) : Run σ μ (Except Exn KVCache)) fun cs r =>
        ∃ r', r = .ok r' ∧ cs = [⟨e, .transferCache cache r'⟩] :=
    ((e.transferCache_emits cache).mono fun cs r h => ⟨r, rfl, h⟩).attempt
  refine timed_bind_emits htransfer ?_ ?_
  · rintro cs transferred ms ⟨r', hr', rfl⟩
    cases hr'
    -- how the transfer ended decides between `decode` and `generate`
    cases transferred with
    | ok cache' =>
      refine timed_bind_emits (e.decode_emits cache' maxTokens) ?_ ?_
      · rintro cs output ms' rfl
        refine (e.conclude_emits _ _ _ _ _ _).mono ?_
        rintro cs r ⟨rfl, hr⟩
        exact .inl ⟨cache', _, rfl, hr⟩
      · rintro cs x rfl
        exact .inl ⟨cache', _, rfl, .error x⟩
    | error y =>
      refine timed_bind_emits (e.generate_emits cache.sourceText maxTokens) ?_ ?_
      · rintro cs output ms' rfl
        refine (e.conclude_emits _ _ _ _ _ _).mono ?_
        rintro cs r ⟨rfl, hr⟩
        exact .inr ⟨y, _, rfl, hr⟩
      · rintro cs x rfl
        exact .inr ⟨y, _, rfl, .error x⟩
  · rintro cs x ⟨r', hr', -⟩
    cases hr'

end Expert

end Chen
