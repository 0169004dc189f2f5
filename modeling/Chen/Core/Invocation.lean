import Chen.Core.Trace

/-!
# What one invocation promises

`invoke` decides between `decode` and `generate`, re-encodes for the next expert and meters the
call, and the text it is about has to be the same one all the way. `Expert.Invoked` says so in
terms of the backend alone: which operations run on which arguments, each on the world that the
one before it left.
-/

namespace Chen

open Effect

variable {σ μ : Type}

/-! ## Single operations -/

/-- Reading the clock leaves the world alone. -/
theorem perfCounter_gives {w : σ} :
    Gives RunState.world (perfCounter : Run σ μ ℚ) w fun _ w' => w' = w := by
  rintro s rfl
  exact ⟨_, _, rfl, rfl⟩

/-- Timing a program leaves its value and its world alone. -/
theorem timed_gives {α : Type} {x : Run σ μ α} {w : σ} {Φ : α → σ → Prop}
    (hx : Gives RunState.world x w Φ) :
    Gives RunState.world (timed x) w fun a w' => Φ a.1 w' := by
  refine perfCounter_gives.bind ?_
  rintro t0 _ rfl
  refine hx.bind fun a w' ha => perfCounter_gives.bind ?_
  rintro t1 _ rfl
  exact Gives.pure ha

/-- A timed program does to the world what the program does. -/
theorem timed_eq_ok {α : Type} {x : Run σ μ α} {r : α × ℚ} {s s' : RunState σ μ}
    (h : timed x s = .ok r s') :
    ∃ s₁ s₂, s₁.world = s.world ∧ x s₁ = .ok r.1 s₂ ∧ s'.world = s₂.world := by
  unfold timed at h
  obtain ⟨t0, s₁, hstart, hrest⟩ := bind_eq_ok.mp h
  obtain ⟨a, s₂, hx, hend⟩ := bind_eq_ok.mp hrest
  cases hstart
  cases hend
  exact ⟨{ s with ticks := s.ticks + 1 }, s₂, rfl, hx, rfl⟩

namespace Expert

variable (e : Expert σ)

/-- A call that returns gives what the backend answers. -/
theorem call_gives {α : Type} (op : Except Exn α → Op) {act : EStateM Exn σ α} {w w' : σ} {a : α}
    (h : act w = .ok a w') :
    Gives RunState.world (e.call op act : Run σ μ α) w fun b v => b = a ∧ v = w' := by
  rintro s rfl
  rw [call, h]
  exact ⟨a, _, rfl, rfl, rfl⟩

/-- A call inside `try` gives how the backend ends. -/
theorem attempt_call_gives {α : Type} (op : Except Exn α → Op) (act : EStateM Exn σ α) (w : σ) :
    Gives RunState.world (attempt (e.call op act) : Run σ μ (Except Exn α)) w fun r v =>
      r = outcome (act w) ∧ v = final (act w) := by
  rintro s rfl
  refine ⟨_, _, rfl, ?_⟩
  rw [call]
  cases act s.world <;> exact ⟨rfl, rfl⟩

variable {e} in
/-- A backend call that returned did so in the world. -/
theorem call_eq_ok {α : Type} {op : Except Exn α → Op} {act : EStateM Exn σ α} {a : α}
    {s s' : RunState σ μ} (h : e.call op act s = .ok a s') : act s.world = .ok a s'.world := by
  rw [call] at h
  cases hact : act s.world with
  | ok b w =>
    rw [hact] at h
    cases h
    rfl
  | error x w =>
    rw [hact] at h
    cases h

variable {e} in
/-- A backend call in a `try` ends as it ends in the world. -/
theorem attempt_call_eq_ok {α : Type} {op : Except Exn α → Op} {act : EStateM Exn σ α}
    {r : Except Exn α} {s s' : RunState σ μ} (h : attempt (e.call op act) s = .ok r s') :
    r = outcome (act s.world) ∧ s'.world = final (act s.world) := by
  obtain ⟨_, _, hrun, hr, hworld⟩ := e.attempt_call_gives op act s.world s rfl
  cases h.symm.trans hrun
  exact ⟨hr, hworld⟩

/-! ## The contract -/

/-- `effective_prompt`: the text of the cache that was given, else the prompt. -/
def effectivePrompt (prompt : Option String) (cache : Option KVCache) : String :=
  (cache.map (·.sourceText)).getD (prompt.getD "")

/-- How an invocation comes by its output: the output, `used_kv_cache`,
`cache_transfer_succeeded`, and the world afterwards. -/
inductive Produces (prompt : Option String) (cache : Option KVCache) (maxTokens : ℤ) (w : σ) :
    String → Bool → Bool → σ → Prop
  /-- The cache was transferred and decoded. -/
  | decoded {c c' : KVCache} {output : String} {w₁ w₂ : σ} (hcache : cache = some c)
      (hkv : e.capabilities.supportsKVCache = true)
      (htransfer : e.backend.transferCache c w = .ok c' w₁)
      (hdecode : e.backend.decode c' maxTokens w₁ = .ok output w₂) :
      Produces prompt cache maxTokens w output true true w₂
  /-- The transfer raised. -/
  | refused {c : KVCache} {x : Exn} {output : String} {w₁ w₂ : σ} (hcache : cache = some c)
      (hkv : e.capabilities.supportsKVCache = true)
      (htransfer : e.backend.transferCache c w = .error x w₁)
      (hgenerate : e.backend.generate (effectivePrompt prompt cache) maxTokens w₁ =
        .ok output w₂) :
      Produces prompt cache maxTokens w output false false w₂
  /-- There is no cache, or the backend cannot use one. -/
  | generated {output : String} {w₁ : σ}
      (hkv : cache.isSome = true → e.capabilities.supportsKVCache = false)
      (hgenerate : e.backend.generate (effectivePrompt prompt cache) maxTokens w =
        .ok output w₁) :
      Produces prompt cache maxTokens w output false true w₁

/-- The cache handed on, for the text of the conversation so far. A backend without `encode` raises
as well. -/
inductive Reencodes (text : String) (w : σ) : Option KVCache → σ → Prop
  | unsupported (hkv : e.capabilities.supportsKVCache = false) : Reencodes text w none w
  | encoded {c : KVCache} {w' : σ} (hkv : e.capabilities.supportsKVCache = true)
      (hencode : e.backend.encode text w = .ok c w') : Reencodes text w (some c) w'
  | failed {x : Exn} {w' : σ} (hkv : e.capabilities.supportsKVCache = true)
      (hencode : e.backend.encode text w = .error x w') : Reencodes text w none w'

/-- The tokens metered: the backend's counts of both texts, or else the estimates of both. What
`int` does not take raises inside the same `try`. -/
inductive Counts (text output : String) (w : σ) : ℤ → ℤ → σ → Prop
  | absent (hcount : e.backend.countTokens = none) :
      Counts text output w (Str.estimateTokens text) (Str.estimateTokens output) w
  | counted {count : String → EStateM Exn σ ℤ} {i o : ℤ} {w₁ w₂ : σ}
      (hcount : e.backend.countTokens = some count) (hin : count text w = .ok i w₁)
      (hout : count output w₁ = .ok o w₂) : Counts text output w i o w₂
  | inputFailed {count : String → EStateM Exn σ ℤ} {x : Exn} {w₁ : σ}
      (hcount : e.backend.countTokens = some count) (hin : count text w = .error x w₁) :
      Counts text output w (Str.estimateTokens text) (Str.estimateTokens output) w₁
  | outputFailed {count : String → EStateM Exn σ ℤ} {i : ℤ} {x : Exn} {w₁ w₂ : σ}
      (hcount : e.backend.countTokens = some count) (hin : count text w = .ok i w₁)
      (hout : count output w₁ = .error x w₂) :
      Counts text output w (Str.estimateTokens text) (Str.estimateTokens output) w₂

/-- What follows an output, from the world `w` on: the cache to hand on, then the tokens. -/
def Concludes (text : String) (w : σ) (answer : String × Option KVCache × ExpertMetrics) (w' : σ) :
    Prop :=
  ∃ v, e.Reencodes (text ++ "\n" ++ answer.1) w answer.2.1 v ∧
    e.Counts text answer.1 v answer.2.2.inputTokens answer.2.2.outputTokens w'

/-- What an invocation does and answers, from the world `w` on. -/
structure Invoked (prompt : Option String) (cache : Option KVCache) (maxTokens : ℤ) (w : σ)
    (answer : String × Option KVCache × ExpertMetrics) (w' : σ) : Prop where
  meters : e.Meters answer.2.2.usedKVCache answer.2.2.cacheTransferSucceeded answer.2.2
  calls : ∃ v, e.Produces prompt cache maxTokens w answer.1 answer.2.2.usedKVCache
      answer.2.2.cacheTransferSucceeded v ∧
    e.Concludes (effectivePrompt prompt cache) v answer w'

/-! ## The parts of an invocation -/

/-- The cache of the answer, if the backend makes one. -/
theorem outputCache_gives (text output : String) (w : σ) :
    Gives RunState.world (e.outputCache text output : Run σ μ (Option KVCache)) w
      (e.Reencodes (text ++ "\n" ++ output) w) := by
  unfold outputCache
  split
  case isFalse hkv => exact Gives.pure (.unsupported (by simpa using hkv))
  case isTrue hkv =>
    refine (e.attempt_call_gives _ _ w).bind ?_
    rintro _ _ ⟨rfl, rfl⟩
    cases hencode : e.backend.encode (text ++ "\n" ++ output) w with
    | ok c w' => exact Gives.pure (.encoded hkv hencode)
    | error x w' => exact Gives.pure (.failed hkv hencode)

/-- The numbers of tokens that the counts come to: if one raised, both are estimates. -/
def countsOf (text output : String) : Except Exn (ℤ × ℤ) → ℤ × ℤ
  | .ok toks => toks
  | .error _ => (Str.estimateTokens text, Str.estimateTokens output)

/-- The tokens of a text and of the answer to it. -/
theorem meterTokens_gives (text output : String) (w : σ) :
    Gives RunState.world (e.meterTokens text output : Run σ μ (ℤ × ℤ)) w fun toks w' =>
      e.Counts text output w toks.1 toks.2 w' := by
  unfold meterTokens
  cases hcount : e.backend.countTokens with
  | none => exact Gives.pure (.absent hcount)
  | some count =>
    -- the two counts inside the `try`: the second runs only if the first returned
    have htry : Gives RunState.world (attempt (do
        let inTok ← e.call (.countTokens text) (count text)
        let outTok ← e.call (.countTokens output) (count output)
        pure (inTok, outTok)) : Run σ μ (Except Exn (ℤ × ℤ))) w fun r w' =>
          e.Counts text output w (countsOf text output r).1 (countsOf text output r).2 w' := by
      rintro s rfl
      refine ⟨_, _, rfl, ?_⟩
      cases hin : count text s.world with
      | error x w₁ =>
        simp only [bind_apply, call, hin]
        exact .inputFailed hcount hin
      | ok i w₁ =>
        cases hout : count output w₁ with
        | error x w₂ =>
          simp only [bind_apply, call, hin, hout]
          exact .outputFailed hcount hin hout
        | ok o w₂ =>
          simp only [bind_apply, call, hin, hout]
          exact .counted hcount hin hout
    refine htry.bind fun r w' hr => ?_
    cases r with
    | ok toks => exact Gives.pure hr
    | error x => exact Gives.pure hr

/-- The end of an `invoke`: the answer, its cache and its metrics. -/
theorem conclude_gives (text output : String) (latencyMs cacheTransferMs : ℚ)
    (usedKV succeeded : Bool) (w : σ) :
    Gives RunState.world (e.conclude text output latencyMs cacheTransferMs usedKV succeeded :
      Run σ μ (String × Option KVCache × ExpertMetrics)) w fun answer w' =>
        answer.1 = output ∧ e.Meters usedKV succeeded answer.2.2 ∧
          e.Concludes text w answer w' := by
  refine (e.outputCache_gives text output w).bind fun cache v hcache => ?_
  refine (e.meterTokens_gives text output v).bind fun toks w' htoks => ?_
  exact Gives.pure ⟨rfl, ⟨rfl, rfl, rfl, rfl, rfl⟩, v, hcache, htoks⟩

/-- An inference that returns, and what follows it, make an invocation. -/
theorem answered_gives {prompt : Option String} {cache : Option KVCache} {maxTokens : ℤ}
    {op : Except Exn String → Op} {act : EStateM Exn σ String} {w v w' : σ} {output : String}
    {usedKV succeeded : Bool} (hact : act v = .ok output w')
    (hproduces : e.Produces prompt cache maxTokens w output usedKV succeeded w')
    (cacheTransferMs : ℚ) :
    Gives RunState.world (do
      let (output, latencyMs) ← timed (e.call op act)
      e.conclude (effectivePrompt prompt cache) output latencyMs cacheTransferMs usedKV succeeded :
        Run σ μ (String × Option KVCache × ExpertMetrics)) v
      (e.Invoked prompt cache maxTokens w) := by
  refine (timed_gives (e.call_gives op hact)).bind ?_
  rintro ⟨_, ms⟩ _ ⟨rfl, rfl⟩
  refine (e.conclude_gives _ _ ms cacheTransferMs usedKV succeeded _).mono ?_
  rintro ⟨_, outCache, m⟩ w'' ⟨rfl, hmeters, hconcludes⟩
  obtain ⟨hname, hrole, hparams, rfl, rfl⟩ := hmeters
  exact ⟨⟨hname, hrole, hparams, rfl, rfl⟩, _, hproduces, hconcludes⟩

/-! ## Whole invocations -/

section Invoke

variable {e} {prompt : Option String} {cache : Option KVCache} {maxTokens : ℤ} {w : σ}

/-- An `invoke` on a text. -/
theorem invokeText_gives (hgenerate : ∀ text, Total (e.backend.generate text maxTokens))
    (hkv : cache.isSome = true → e.capabilities.supportsKVCache = false) :
    Gives RunState.world (e.invokeText (effectivePrompt prompt cache) maxTokens :
      Run σ μ (String × Option KVCache × ExpertMetrics)) w
      (e.Invoked prompt cache maxTokens w) := by
  obtain ⟨output, w₁, hout⟩ := hgenerate (effectivePrompt prompt cache) w
  exact e.answered_gives hout (.generated hkv hout) 0

/-- An `invoke` on a cache, with the text to fall back to. -/
theorem invokeCache_gives (hgenerate : ∀ text, Total (e.backend.generate text maxTokens))
    (hdecode : ∀ c, Total (e.backend.decode c maxTokens))
    (hkv : e.capabilities.supportsKVCache = true) (c : KVCache) :
    Gives RunState.world (e.invokeCache c maxTokens :
      Run σ μ (String × Option KVCache × ExpertMetrics)) w
      (e.Invoked prompt (some c) maxTokens w) := by
  refine (timed_gives (e.attempt_call_gives _ _ w)).bind ?_
  rintro ⟨_, ms⟩ _ ⟨rfl, rfl⟩
  cases htransfer : e.backend.transferCache c w with
  | ok c' w₁ =>
    obtain ⟨output, w₂, hout⟩ := hdecode c' w₁
    exact e.answered_gives hout (.decoded rfl hkv htransfer hout) ms
  | error x w₁ =>
    obtain ⟨output, w₂, hout⟩ := hgenerate c.sourceText w₁
    exact e.answered_gives hout (.refused rfl hkv htransfer hout) ms

/-- Every `invoke` whose backend answers returns. -/
theorem invoke_gives (hgiven : prompt.isSome ∨ cache.isSome)
    (hgenerate : ∀ text, Total (e.backend.generate text maxTokens))
    (hdecode : ∀ c, Total (e.backend.decode c maxTokens)) :
    Gives RunState.world (e.invoke prompt cache maxTokens :
      Run σ μ (String × Option KVCache × ExpertMetrics)) w
      (e.Invoked prompt cache maxTokens w) := by
  cases cache with
  | none =>
    cases prompt with
    | none => simp at hgiven
    | some text =>
      have htext : Gives RunState.world (e.invokeText (effectivePrompt (some text) none) maxTokens :
          Run σ μ (String × Option KVCache × ExpertMetrics)) w
          (e.Invoked (some text) none maxTokens w) := invokeText_gives hgenerate (by simp)
      exact htext
  | some c =>
    rw [invoke_cache]
    split
    case isTrue hkv => exact invokeCache_gives hgenerate hdecode hkv c
    case isFalse hkv =>
      have htext : Gives RunState.world (e.invokeText (effectivePrompt prompt (some c)) maxTokens :
          Run σ μ (String × Option KVCache × ExpertMetrics)) w
          (e.Invoked prompt (some c) maxTokens w) :=
        invokeText_gives hgenerate fun _ => by simpa using hkv
      exact htext

/-- An invocation that returned has come by its output. -/
theorem produces_of_invoke_eq_ok {c : KVCache}
    {answer : String × Option KVCache × ExpertMetrics} {s s' : RunState σ μ}
    (h : e.invoke none (some c) maxTokens s = .ok answer s') :
    ∃ output usedKV succeeded w', e.Produces none (some c) maxTokens s.world output usedKV
      succeeded w' := by
  rw [invoke_cache] at h
  split at h
  case isTrue hkv =>
    obtain ⟨⟨transferred, ms⟩, s₁, htransfer, hrest⟩ := bind_eq_ok.mp h
    obtain ⟨s₂, s₃, hworld, htry, hworld'⟩ := timed_eq_ok htransfer
    obtain ⟨htransferred, hafter⟩ := attempt_call_eq_ok htry
    rw [hworld] at htransferred hafter
    rw [hafter] at hworld'
    cases hended : e.backend.transferCache c s.world with
    | ok c' w₁ =>
      rw [hended] at htransferred hworld'
      cases htransferred
      obtain ⟨⟨output, _⟩, s₄, hdecode, -⟩ := bind_eq_ok.mp hrest
      obtain ⟨s₅, s₆, hworld₁, hcall, -⟩ := timed_eq_ok hdecode
      have hact := call_eq_ok hcall
      rw [hworld₁, hworld'] at hact
      -- the transfer returned: the answer is that of `decode`
      exact ⟨_, _, _, _, .decoded rfl hkv hended hact⟩
    | error x w₁ =>
      rw [hended] at htransferred hworld'
      cases htransferred
      obtain ⟨⟨output, _⟩, s₄, hgenerate, -⟩ := bind_eq_ok.mp hrest
      obtain ⟨s₅, s₆, hworld₁, hcall, -⟩ := timed_eq_ok hgenerate
      have hact := call_eq_ok hcall
      rw [hworld₁, hworld'] at hact
      -- it raised: the answer is that of `generate` on the text of the cache
      exact ⟨_, _, _, _, .refused rfl hkv hended hact⟩
  case isFalse hkv =>
    obtain ⟨⟨output, _⟩, s₁, hgenerate, -⟩ := bind_eq_ok.mp h
    obtain ⟨s₂, s₃, hworld, hcall, -⟩ := timed_eq_ok hgenerate
    have hact := call_eq_ok hcall
    rw [hworld] at hact
    exact ⟨_, _, _, _, .generated (fun _ => by simpa using hkv) hact⟩

/-- An invocation that can come by an output returns. -/
theorem invoke_gives_of_produces {c : KVCache} {w' : σ} {output : String} {usedKV succeeded : Bool}
    (h : e.Produces none (some c) maxTokens w output usedKV succeeded w') :
    Gives RunState.world (e.invoke none (some c) maxTokens :
      Run σ μ (String × Option KVCache × ExpertMetrics)) w
      (e.Invoked none (some c) maxTokens w) := by
  rw [invoke_cache]
  cases h with
  | decoded hcache hkv htransfer hdecode =>
    cases hcache
    rw [if_pos hkv]
    refine (timed_gives (e.attempt_call_gives _ _ w)).bind ?_
    rintro ⟨_, ms⟩ _ ⟨rfl, rfl⟩
    rw [htransfer]
    exact e.answered_gives hdecode (.decoded rfl hkv htransfer hdecode) ms
  | refused hcache hkv htransfer hgenerate =>
    cases hcache
    rw [if_pos hkv]
    refine (timed_gives (e.attempt_call_gives _ _ w)).bind ?_
    rintro ⟨_, ms⟩ _ ⟨rfl, rfl⟩
    rw [htransfer]
    exact e.answered_gives hgenerate (.refused rfl hkv htransfer hgenerate) ms
  | generated hkv hgenerate =>
    rw [if_neg (by simp [hkv rfl])]
    exact e.answered_gives hgenerate (.generated hkv hgenerate) 0

/-- The cache was there to be transferred, and the backend's transfer ends in `r`. -/
def Transfers (e : Expert σ) (cache : Option KVCache) (w : σ) (r : Except Exn KVCache) : Prop :=
  ∃ c, cache = some c ∧ e.capabilities.supportsKVCache = true ∧
    outcome (e.backend.transferCache c w) = r

/-- An invocation used a cache exactly when a transfer returned, and reports a failed transfer
exactly when one raised. -/
theorem Produces.flags {output : String} {usedKV succeeded : Bool} {w' : σ}
    (h : e.Produces prompt cache maxTokens w output usedKV succeeded w') :
    (usedKV = true ↔ ∃ c, e.Transfers cache w (.ok c)) ∧
      (succeeded = false ↔ ∃ x, e.Transfers cache w (.error x)) := by
  cases h with
  | decoded hcache hkv htransfer =>
    subst hcache
    simp [Transfers, hkv, htransfer]
  | refused hcache hkv htransfer =>
    subst hcache
    simp [Transfers, hkv, htransfer]
  | generated hkv =>
    have hno : ∀ r, ¬e.Transfers cache w r := by
      rintro r ⟨c, rfl, htrue, -⟩
      rw [hkv rfl] at htrue
      cases htrue
    simp [hno]

/-- Given a prompt or a cache, and a backend whose `generate` and `decode` return, `invoke` returns
and keeps its contract, whatever `transfer_cache`, `encode` and `count_tokens` do. -/
theorem invoke_returns (e : Expert σ) (prompt : Option String) (cache : Option KVCache)
    (maxTokens : ℤ) (s : RunState σ μ) (hgiven : prompt.isSome ∨ cache.isSome)
    (hgenerate : ∀ text, Total (e.backend.generate text maxTokens))
    (hdecode : ∀ c, Total (e.backend.decode c maxTokens)) :
    ∃ answer s', e.invoke prompt cache maxTokens s = .ok answer s' ∧
      e.Invoked prompt cache maxTokens s.world answer s'.world ∧
      (answer.2.2.usedKVCache = true ↔ ∃ c, e.Transfers cache s.world (.ok c)) ∧
      (answer.2.2.cacheTransferSucceeded = false ↔ ∃ x, e.Transfers cache s.world (.error x)) := by
  obtain ⟨answer, s', hrun, hinvoked⟩ := invoke_gives hgiven hgenerate hdecode s rfl
  obtain ⟨v, hproduces, -⟩ := hinvoked.calls
  exact ⟨answer, s', hrun, hinvoked, hproduces.flags⟩

/-- A backend that refuses the cache answers its text; the prompt is not looked at. -/
theorem invoke_returns_refused :
    let script : Script := { transferCache := fun _ => .error (.incompatibleCache "layers") }
    let e : Expert Unit := { name := "a", role := .analyst, backend := script.backend }
    let s : RunState Unit NoMemory := { world := (), memory := .mk, clock := fun _ => 0 }
    ∃ answer s', e.invoke (some "p") (some (.ofText "c")) 16 s = .ok answer s' ∧
      e.Invoked (some "p") (some (.ofText "c")) 16 s.world answer s'.world ∧
      (answer.2.2.usedKVCache = true ↔ ∃ c, e.Transfers (some (.ofText "c")) s.world (.ok c)) ∧
      (answer.2.2.cacheTransferSucceeded = false ↔
        ∃ x, e.Transfers (some (.ofText "c")) s.world (.error x)) := by
  intro script e s
  exact invoke_returns e _ _ 16 s (.inl rfl) (fun _ _ => ⟨_, _, rfl⟩) fun _ _ => ⟨_, _, rfl⟩

end Invoke

end Expert

end Chen
