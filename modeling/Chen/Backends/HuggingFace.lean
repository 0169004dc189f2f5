import Chen.Backends.Layers
import Chen.Library.Effect
import Chen.Python.Numpy

/-!
# The HuggingFace backend

How it makes a cache of the keys and values that the model returns, and adapts a cache of another
model. The model and its tokenizer are parameters.
-/

namespace Chen

/-- The keys and values that a model returns: a tuple of pairs, or an object with two lists. -/
inductive PastKeyValues where
  | legacy (layers : List (Tensor × Tensor))
  | dynamic (keyCache valueCache : List Tensor)

/-- `past[layer]`, or else `past.key_cache[layer]` and `past.value_cache[layer]`. -/
def PastKeyValues.layer (past : PastKeyValues) (layer : ℕ) : Except Exn (Tensor × Tensor) :=
  match past with
  | .legacy layers =>
    match layers[layer]? with
    | some kv => .ok kv
    | none => .error (.other "AttributeError" "'tuple' object has no attribute 'key_cache'")
  | .dynamic keyCache valueCache =>
    match keyCache[layer]?, valueCache[layer]? with
    | some k, some v => .ok (k, v)
    | _, _ => .error (.other "IndexError" "list index out of range")

/-- `HuggingFaceBackend`, with its model loaded. A model without heads cannot be. -/
structure HuggingFaceBackend where
  modelId : String
  numHiddenLayers : ℕ
  numAttentionHeads : ℕ
  hiddenSize : ℕ
  heads_pos : 0 < numAttentionHeads := by decide
  inputIds : String → List ℕ
  forward : List ℕ → Option PastKeyValues

namespace HuggingFaceBackend

/-- `hidden_size // n_heads`. -/
def headDim (b : HuggingFaceBackend) : ℕ := b.hiddenSize / b.numAttentionHeads

/-- `_normalize_shape`. -/
def normalizeShape (arr : Tensor) (nHeads headDim : ℕ) : Except Exn Tensor :=
  if arr.shape.length = 4 then do
    -- "[batch, n_heads, seq_len, head_dim] -> [seq_len, n_heads, head_dim]"
    (← arr.index [0]).transpose [0, 2, 1]
  else if arr.shape.length = 3 then do
    -- "[batch, seq_len, hidden] -> [seq_len, n_heads, head_dim]"
    (← arr.index [0]).reshape [arr.shape.getD 1 0, nHeads, headDim]
  else .ok arr

/-- `encode`. -/
def encode [Numpy ℚ] (b : HuggingFaceBackend) (prompt : String) : Except Exn KVCache := do
  let ids := b.inputIds prompt
  match b.forward ids with
  | none =>
    .error (.other "BackendConfigError" ("Model '" ++ b.modelId ++
      "' did not return a KV-cache. Check that it is a causal LM with `use_cache=True` support."))
  | some past =>
    let layers ← (List.range b.numHiddenLayers).mapM past.layer
    let keys ← layers.mapM fun kv =>
      normalizeShape (kv.1.map Numpy.float32) b.numAttentionHeads b.headDim
    let values ← layers.mapM fun kv =>
      normalizeShape (kv.2.map Numpy.float32) b.numAttentionHeads b.headDim
    match ids.getLast? with
    | none => .error (.other "IndexError" "index -1 is out of bounds for dimension 1 with size 0")
    | some last =>
      KVCache.create keys values b.modelId b.numHiddenLayers (b.numAttentionHeads * b.headDim)
        b.numAttentionHeads prompt last (ids.length - 1) []

/-- `transfer_cache`. -/
def transferCache (b : HuggingFaceBackend) (cache : KVCache) : Except Exn KVCache :=
  if cache.sourceNHeads ≠ b.numAttentionHeads ∨
      cache.sourceHiddenSize ≠ b.numAttentionHeads * b.headDim then
    .error (.incompatibleCache ("Cannot transfer cache from '" ++ cache.sourceModel ++
      "' (hidden=" ++ toString cache.sourceHiddenSize ++ ", heads=" ++
      toString cache.sourceNHeads ++ ") to '" ++ b.modelId ++ "' (hidden=" ++
      toString (b.numAttentionHeads * b.headDim) ++ ", heads=" ++ toString b.numAttentionHeads ++
      "). A learned projection is required but not bundled in v0.1."))
  else cache.fitLayers b.numHiddenLayers []

end HuggingFaceBackend

end Chen
