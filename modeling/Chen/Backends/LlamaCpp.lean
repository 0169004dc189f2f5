import Chen.Backends.Layers
import Chen.Library.Effect
import Chen.Python.Bytes

/-!
# The llama.cpp backend

How it reads the buffer of a context into a cache, writes a cache back, and adapts a cache of
another model. The context, whose calls may have effects and raise, is a parameter; so are the binary
formats of numbers.
-/

namespace Chen

/-- The binary formats of floating-point numbers. -/
class FloatBytes where
  /-- An element of a `float16` array. -/
  half : Bytes → ℚ
  /-- The bytes of an element of a `float32` array. -/
  single : ℚ → Bytes
  length_single : ∀ x, (single x).length = 4

/-- Formats that are right at zero. -/
@[reducible] def FloatBytes.zeros : FloatBytes where
  half _ := 0
  single _ := [0, 0, 0, 0]
  length_single _ := rfl

/-- `np.frombuffer(data, dtype=np.float16, count=count)`. -/
def fromBuffer16 [FloatBytes] (data : Bytes) (count : ℕ) : Except Exn (List ℚ) :=
  if data.length < 2 * count then .error (.value "buffer is smaller than requested size")
  else .ok ((List.range count).map fun i => FloatBytes.half ((data.drop (2 * i)).take 2))

/-- `t.tobytes()`, of a `float32` array. -/
def Tensor.toBytes [FloatBytes] (t : Tensor) : Bytes := t.data.flatMap FloatBytes.single

/-- The `Llama` object and its context. -/
structure Llama (σ : Type) where
  /-- `llm.tokenize(text, add_bos=add_bos)`. -/
  tokenize : Bytes → Bool → List ℕ
  reset : EStateM Exn σ Unit
  eval : List ℕ → EStateM Exn σ Unit
  /-- `ctx.get_kv_cache()`. -/
  getKvCache : EStateM Exn σ Bytes
  /-- `ctx.set_kv_cache(data)`. -/
  setKvCache : Bytes → EStateM Exn σ Unit
  /-- The floats behind the pointer that `llama_get_kv_cache` returns. -/
  readPointer : ℕ → EStateM Exn σ (List ℚ)
  /-- `ctypes.memmove` to that pointer. -/
  writePointer : Bytes → EStateM Exn σ Unit
  /-- `llm(prompt, max_tokens=max_tokens)`. -/
  call : String → ℤ → EStateM Exn σ String
  /-- `llm.create_completion(prompt, max_tokens=max_tokens)`. -/
  createCompletion : String → ℤ → EStateM Exn σ String

/-- `LlamaCppBackend`, with its model loaded. `n_head_kv` may be missing from the context. -/
structure LlamaCppBackend where
  modelId : String
  nLayer : ℕ
  nEmbd : ℕ
  nHead : ℕ
  nHeadKvAttr : Option ℕ := none
  nHead_pos : 0 < nHead := by decide

namespace LlamaCppBackend

variable {σ : Type} [FloatBytes] (b : LlamaCppBackend)

/-- `config["n_head_kv"]`. -/
def nHeadKv : ℕ := b.nHeadKvAttr.getD b.nHead

/-- `config["head_dim"]`. -/
def headDim : ℕ := b.nEmbd / b.nHead

/-- The number of elements in the buffer of a context. -/
def totalSize (seqLen : ℕ) : ℕ := b.nLayer * 2 * b.nHeadKv * seqLen * b.headDim

/-- The tokens that are evaluated for a prompt: at least one. -/
def promptTokens (llm : Llama σ) (prompt : String) : List ℕ :=
  match llm.tokenize (Str.utf8 prompt) true with
  | [] => [0]
  | tokens => tokens

/-- The elements of the context's buffer, through the high-level API or else through the pointer. -/
def extract (llm : Llama σ) (count : ℕ) : EStateM Exn σ (List ℚ) := fun s =>
  match (do liftExcept (fromBuffer16 (← llm.getKvCache) count) : EStateM Exn σ (List ℚ)) s with
  | .error (.other "AttributeError" _) s' | .error (.other "TypeError" _) s' =>
    llm.readPointer count s'
  | r => r

/-- `kv_array.reshape(n_layer, 2, n_head_kv, seq_len, head_dim)`. -/
def reshapeBuffer (seqLen : ℕ) (kvArray : List ℚ) : Except Exn Tensor :=
  Tensor.reshape ⟨[kvArray.length], kvArray, by simp⟩
    [b.nLayer, 2, b.nHeadKv, seqLen, b.headDim]

/-- `kv_array[layer, 0]` and `kv_array[layer, 1]`, the tokens first. -/
def readLayer (kvArray : Tensor) (layer : ℕ) : Except Exn (Tensor × Tensor) := do
  let k ← (do (← kvArray.index [layer, 0]).transpose [1, 0, 2])
  let v ← (do (← kvArray.index [layer, 1]).transpose [1, 0, 2])
  pure (k, v)

/-- The cache of a prompt whose keys and values are `kvArray`. -/
def cacheOf (prompt : String) (tokenIds : List ℕ) (kvArray : List ℚ) : Except Exn KVCache := do
  let kvArray ← b.reshapeBuffer tokenIds.length kvArray
  let layers ← (List.range b.nLayer).mapM (readLayer kvArray)
  match tokenIds.getLast? with
  | none => .error (.other "IndexError" "list index out of range")
  | some last =>
    KVCache.create (layers.map (·.1)) (layers.map (·.2)) b.modelId b.nLayer
      (b.nHeadKv * b.headDim) b.nHeadKv prompt last (tokenIds.length - 1)
      [("llama_cpp_n_embd", toString b.nEmbd)]

/-- `encode`. -/
def encode (llm : Llama σ) (prompt : String) : EStateM Exn σ KVCache := do
  let tokenIds := promptTokens llm prompt
  llm.reset
  llm.eval tokenIds
  let kvArray ← extract llm (b.totalSize tokenIds.length)
  liftExcept (b.cacheOf prompt tokenIds kvArray)

/-- The heads or the width of the cache are not the model's. -/
def mismatched (cache : KVCache) : Bool :=
  cache.sourceNHeads ≠ b.nHeadKv || cache.sourceHiddenSize ≠ b.nHeadKv * b.headDim

/-- Layers appended until there are `nLayer`, each zeros of the shape of the first. -/
def padLayers (layers : List Tensor) (nLayer : ℕ) : Except Exn (List Tensor) :=
  match layers with
  | [] => if nLayer = 0 then .ok [] else .error (.other "IndexError" "list index out of range")
  | first :: _ => .ok (layers ++ List.replicate (nLayer - layers.length) first.zerosLike)

/-- `flat[layer, 0]` and `flat[layer, 1]` assigned. -/
def storeLayer (flat : Tensor) (layer : ℕ) (key value : Tensor) : Except Exn Tensor := do
  let flat ← (do flat.setIndex [layer, 0] (← key.transpose [1, 0, 2]))
  flat.setIndex [layer, 1] (← value.transpose [1, 0, 2])

/-- The layer that a cache has at an index, stored. -/
def storeLayerOf (keys values : List Tensor) (flat : Tensor) (layer : ℕ) : Except Exn Tensor :=
  match keys[layer]?, values[layer]? with
  | some key, some value => storeLayer flat layer key value
  | _, _ => .error (.other "IndexError" "list index out of range")

/-- `flat`: the cache in the format of the context. -/
def flatten (cache : KVCache) : Except Exn Tensor := do
  let keys ← padLayers (cache.keys.take b.nLayer) b.nLayer
  let values ← padLayers (cache.values.take b.nLayer) b.nLayer
  (List.range b.nLayer).foldlM (storeLayerOf keys values)
    (.zeros [b.nLayer, 2, b.nHeadKv, cache.seqLen, b.headDim])

/-- The bytes given to the context, through the high-level API or else through the pointer. -/
def inject (llm : Llama σ) (data : Bytes) : EStateM Exn σ Unit := fun s =>
  match llm.setKvCache data s with
  | .error (.other "AttributeError" _) s' => llm.writePointer data s'
  | r => r

/-- `decode`. -/
def decode (llm : Llama σ) (cache : KVCache) (maxTokens : ℤ) : EStateM Exn σ String :=
  if b.mismatched cache then
    throw (.incompatibleCache ("Cannot decode cache from '" ++ cache.sourceModel ++ "' (heads=" ++
      toString cache.sourceNHeads ++ ", hidden=" ++ toString cache.sourceHiddenSize ++ ") on '" ++
      b.modelId ++ "' (heads=" ++ toString b.nHeadKv ++ ", hidden=" ++
      toString (b.nHeadKv * b.headDim) ++ ")."))
  else if cache.sourceModel ≠ b.modelId then do
    let text ← llm.call cache.sourceText maxTokens
    pure ("[transferred from " ++ cache.sourceModel ++ "] " ++ text)
  else do
    let flat ← liftExcept (b.flatten cache)
    inject llm flat.toBytes
    llm.eval [cache.lastTokenId]
    llm.createCompletion "" maxTokens

/-- `transfer_cache`. -/
def transferCache (cache : KVCache) : Except Exn KVCache :=
  if b.mismatched cache then
    .error (.incompatibleCache ("Cannot transfer cache from '" ++ cache.sourceModel ++
      "' (hidden=" ++ toString cache.sourceHiddenSize ++ ", heads=" ++
      toString cache.sourceNHeads ++ ") to '" ++ b.modelId ++
      "'. llama.cpp requires matching KV layout."))
  else cache.fitLayers b.nLayer cache.metadata

end LlamaCppBackend

end Chen
