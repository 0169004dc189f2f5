import Chen.Core.KVCache

/-!
# The backend protocol

A backend is an object with state: its operations are programs over a world `σ`, and each of them
may raise. `σ` is shared, so one backend's calls may depend on another's.
-/

namespace Chen

/-- What a backend declares it can do. -/
structure BackendCapabilities where
  supportsKVCache : Bool
  supportsStreaming : Bool
  supportsBatching : Bool
  deterministic : Bool
deriving DecidableEq, Repr

/-- An attribute read through `hasattr` and `int`: absent, not convertible, or a number. -/
inductive IntAttr where
  | absent
  | notInt
  | int (n : ℕ)
deriving DecidableEq, Repr

/-- The `InferenceBackend` protocol. `count_tokens` is outside the protocol: callers look for it
with `hasattr`. -/
structure Backend (σ : Type) where
  paramsM : IntAttr
  resolvedParamsM : IntAttr
  capabilities : BackendCapabilities
  modelId : String
  generate : String → ℤ → EStateM Exn σ String
  encode : String → EStateM Exn σ KVCache
  decode : KVCache → ℤ → EStateM Exn σ String
  transferCache : KVCache → EStateM Exn σ KVCache
  countTokens : Option (String → EStateM Exn σ ℤ)

/-! ## Stateless backends -/

/-- The answers of a backend that has no state. Text is answered by an exclamation mark unless
something else is given. -/
structure Script where
  paramsM : ℕ := 1
  supportsKVCache : Bool := true
  generate : String → Except Exn String := fun text => .ok (text ++ "!")
  encode : String → Except Exn KVCache := fun text => .ok (.ofText text)
  decode : KVCache → Except Exn String := fun cache => .ok (cache.sourceText ++ "!")
  transferCache : KVCache → Except Exn KVCache := .ok

/-- The backend that answers from a script and leaves the world alone. -/
def Script.backend {σ : Type} (script : Script) : Backend σ where
  paramsM := .int script.paramsM
  resolvedParamsM := .absent
  capabilities := ⟨script.supportsKVCache, false, false, true⟩
  modelId := ""
  generate text _ := liftExcept (script.generate text)
  encode text := liftExcept (script.encode text)
  decode cache _ := liftExcept (script.decode cache)
  transferCache cache := liftExcept (script.transferCache cache)
  countTokens := none

end Chen
