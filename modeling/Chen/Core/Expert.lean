import Chen.Backends.Base
import Chen.Library.Effect
import Chen.Python.Text
import Mathlib.Data.Rat.Defs

/-!
# Micro-experts

An expert is a name, a role and a backend. `invoke` runs it on a text prompt or on a cache handed
over by an earlier expert, and meters the call.

A run carries the backends' world, the shared memory, the readings of the performance counter, and
the trace of the backend calls made so far.
-/

namespace Chen

open Effect

/-- Semantic role tag for an expert. -/
inductive ExpertRole where
  | analyst
  | reasoner
  | synthesizer
  | coder
  | router
  | translator
  | generalist
deriving DecidableEq, Repr

/-- `role.value`. -/
def ExpertRole.value : ExpertRole → String
  | .analyst => "analyst"
  | .reasoner => "reasoner"
  | .synthesizer => "synthesizer"
  | .coder => "coder"
  | .router => "router"
  | .translator => "translator"
  | .generalist => "generalist"

/-- Different roles have different values. -/
theorem ExpertRole.value_injective : Function.Injective ExpertRole.value := by
  intro r r' h
  cases r <;> cases r' <;> first | rfl | exact absurd h (by decide)

/-- Per-invocation metrics for one expert. -/
structure ExpertMetrics where
  expertName : String
  role : ExpertRole
  paramsM : ℕ
  inputTokens : ℤ
  outputTokens : ℤ
  latencyMs : ℚ
  cacheTransferMs : ℚ := 0
  usedKVCache : Bool := false
  cacheTransferSucceeded : Bool := true
deriving DecidableEq

/-- `total_tokens`. -/
def ExpertMetrics.totalTokens (m : ExpertMetrics) : ℤ := m.inputTokens + m.outputTokens

/-- A micro-expert: a name, a role, and a backend. -/
structure Expert (σ : Type) where
  name : String
  role : ExpertRole
  backend : Backend σ
  description : String := ""

/-! ## Runs and their traces -/

/-- One backend operation, with its arguments and how it ended. -/
inductive Op where
  | generate (prompt : String) (maxTokens : ℤ) (result : Except Exn String)
  | encode (prompt : String) (result : Except Exn KVCache)
  | decode (cache : KVCache) (maxTokens : ℤ) (result : Except Exn String)
  | transferCache (cache : KVCache) (result : Except Exn KVCache)
  | countTokens (text : String) (result : Except Exn ℤ)

/-- One call of the trace: the expert whose backend was called, and the operation. -/
structure Call (σ : Type) where
  expert : Expert σ
  op : Op

/-- The state of a run. `calls` is the trace, oldest call first; no operation reads it. -/
structure RunState (σ μ : Type) where
  world : σ
  memory : μ
  clock : ℕ → ℚ
  ticks : ℕ := 0
  calls : List (Call σ) := []

/-- A program of a run. -/
abbrev Run (σ μ α : Type) : Type := EStateM Exn (RunState σ μ) α

variable {σ μ : Type}

/-- `time.perf_counter()`: the next reading. -/
def perfCounter : Run σ μ ℚ := fun s => .ok (s.clock s.ticks) { s with ticks := s.ticks + 1 }

/-- A program and the milliseconds it took. -/
def timed {α : Type} (x : Run σ μ α) : Run σ μ (α × ℚ) := do
  let t0 ← perfCounter
  let a ← x
  let t1 ← perfCounter
  pure (a, (t1 - t0) * 1000)

namespace Expert

/-- `capabilities`. -/
def capabilities (e : Expert σ) : BackendCapabilities := e.backend.capabilities

/-- Model size in millions of parameters: `params_m`, else `resolved_params_m`, else 0. -/
def paramsM (e : Expert σ) : ℕ :=
  match e.backend.paramsM with
  | .int n => n
  | _ =>
    match e.backend.resolvedParamsM with
    | .int n => n
    | _ => 0

/-- Run a backend operation on the world and put it on the trace. -/
def call {α : Type} (e : Expert σ) (op : Except Exn α → Op) (act : EStateM Exn σ α) :
    Run σ μ α := fun s =>
  match act s.world with
  | .ok a w => .ok a { s with world := w, calls := s.calls ++ [⟨e, op (.ok a)⟩] }
  | .error x w => .error x { s with world := w, calls := s.calls ++ [⟨e, op (.error x)⟩] }

/-- `self.backend.generate(prompt, max_tokens=max_tokens)`. -/
def generate (e : Expert σ) (prompt : String) (maxTokens : ℤ) : Run σ μ String :=
  e.call (.generate prompt maxTokens) (e.backend.generate prompt maxTokens)

/-- `self.backend.encode(prompt)`. -/
def encode (e : Expert σ) (prompt : String) : Run σ μ KVCache :=
  e.call (.encode prompt) (e.backend.encode prompt)

/-- `self.backend.decode(cache, max_tokens=max_tokens)`. -/
def decode (e : Expert σ) (cache : KVCache) (maxTokens : ℤ) : Run σ μ String :=
  e.call (.decode cache maxTokens) (e.backend.decode cache maxTokens)

/-- `self.backend.transfer_cache(cache)`. -/
def transferCache (e : Expert σ) (cache : KVCache) : Run σ μ KVCache :=
  e.call (.transferCache cache) (e.backend.transferCache cache)

/-- The cache for downstream experts: the input and the output, re-encoded. A failure to encode
leaves no cache. -/
def outputCache (e : Expert σ) (text output : String) : Run σ μ (Option KVCache) := do
  if e.capabilities.supportsKVCache then
    match ← attempt (e.encode (text ++ "\n" ++ output)) with
    | .ok cache => pure (some cache)
    | .error _ => pure none
  else
    pure none

/-- Input and output tokens: the backend's own counts, or the estimate when it has no
`count_tokens` or a count raises. -/
def meterTokens (e : Expert σ) (text output : String) : Run σ μ (ℤ × ℤ) :=
  match e.backend.countTokens with
  | some count => do
    let counts ← attempt do
      let inTok ← e.call (.countTokens text) (count text)
      let outTok ← e.call (.countTokens output) (count output)
      pure (inTok, outTok)
    match counts with
    | .ok toks => pure toks
    | .error _ => pure (Str.estimateTokens text, Str.estimateTokens output)
  | none => pure (Str.estimateTokens text, Str.estimateTokens output)

/-- What `invoke` does once the output is there: the downstream cache and the metrics. `text` is
the effective prompt. -/
def conclude (e : Expert σ) (text output : String) (latencyMs cacheTransferMs : ℚ)
    (usedKV succeeded : Bool) : Run σ μ (String × Option KVCache × ExpertMetrics) := do
  let cache ← e.outputCache text output
  let toks ← e.meterTokens text output
  pure (output, cache,
    { expertName := e.name
      role := e.role
      paramsM := e.paramsM
      inputTokens := toks.1
      outputTokens := toks.2
      latencyMs
      cacheTransferMs
      usedKVCache := usedKV
      cacheTransferSucceeded := succeeded })

/-- `invoke` on a text prompt. -/
def invokeText (e : Expert σ) (text : String) (maxTokens : ℤ) :
    Run σ μ (String × Option KVCache × ExpertMetrics) := do
  let (output, latencyMs) ← timed (e.generate text maxTokens)
  e.conclude text output latencyMs 0 false true

/-- `invoke` on a cache, for a backend that supports caches. A failed transfer falls back to the
text of the cache. -/
def invokeCache (e : Expert σ) (cache : KVCache) (maxTokens : ℤ) :
    Run σ μ (String × Option KVCache × ExpertMetrics) := do
  let (transferred, cacheTransferMs) ← timed (attempt (e.transferCache cache))
  match transferred with
  | .ok cache' =>
    let (output, latencyMs) ← timed (e.decode cache' maxTokens)
    e.conclude cache.sourceText output latencyMs cacheTransferMs true true
  | .error _ =>
    -- the exception ends here: what is left of it is `cacheTransferSucceeded`
    let (output, latencyMs) ← timed (e.generate cache.sourceText maxTokens)
    e.conclude cache.sourceText output latencyMs cacheTransferMs false false

/-- `Expert.invoke`. A backend that cannot use a cache gets its text. -/
def invoke (e : Expert σ) (prompt : Option String) (cache : Option KVCache) (maxTokens : ℤ) :
    Run σ μ (String × Option KVCache × ExpertMetrics) :=
  match prompt, cache with
  | none, none => throw (.value "Expert.invoke: one of `prompt` or `cache` is required.")
  | some text, none => e.invokeText text maxTokens
  | _, some cache =>
    if e.capabilities.supportsKVCache then e.invokeCache cache maxTokens
    else e.invokeText cache.sourceText maxTokens

/-- A cache wins over a prompt. -/
theorem invoke_cache (e : Expert σ) (prompt : Option String) (cache : KVCache) (maxTokens : ℤ) :
    (e.invoke prompt (some cache) maxTokens :
      Run σ μ (String × Option KVCache × ExpertMetrics)) =
      if e.capabilities.supportsKVCache then e.invokeCache cache maxTokens
      else e.invokeText cache.sourceText maxTokens := by
  cases prompt <;> rfl

end Expert

end Chen
