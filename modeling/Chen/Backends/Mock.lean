import Chen.Backends.Base
import Chen.Library.LastWrite
import Chen.Python.Hashlib
import Chen.Python.Text
import Mathlib.Data.Rat.Defs

/-!
# The mock backend

A deterministic backend whose answers are functions of digests of its input. It has no state worth
the name: the caches it files under `_cache` are never read.
-/

namespace Chen

/-- `_hash_to_embedding`: the text in chunks of eight bytes, each hashed with its position and
folded into a vector of length `dim`. -/
def hashToEmbedding [Hashlib] (text : String) (dim seed : ℕ) : List ℚ :=
  let encoded := Str.utf8 text
  let starts := (List.range ((max encoded.length 1 + 7) / 8)).map (8 * ·)
  starts.foldl
    (fun out i =>
      let chunk := (encoded.drop i).take 8
      let digest := Hashlib.blake2b (toLittle8 (seed + i)) chunk 8
      out.set (i / 8 % dim) ((intFromLittle digest % 10000 : ℕ) / 10000))
    (List.replicate dim 0)

/-- An embedding has the dimension asked for. -/
theorem hashToEmbedding_length [Hashlib] (text : String) (dim seed : ℕ) :
    (hashToEmbedding text dim seed).length = dim :=
  (LastWrite.length_foldl_set (· / 8 % dim) _ _ _).trans List.length_replicate

/-- `f"{x:.4f}"` for a number between 0 and 1 with four decimals. -/
def fixed4 (x : ℚ) : String :=
  let digits := toString (x * 10000).floor.toNat
  "0." ++ String.ofList (List.replicate (4 - digits.length) '0') ++ digits

/-- The mock backend. Its shape has no zero dimension, and an empty `model_id` has been replaced by
the default. A seed has at most 63 bits, so that `to_bytes(8)` takes its sum with any position in a
text that fits into memory. -/
structure MockBackend where
  paramsM : ℕ := 3000
  nLayers : ℕ := 4
  nHeads : ℕ := 8
  headDim : ℕ := 64
  seed : ℕ := 42
  roleHint : String := "expert"
  modelId : String := "mock-" ++ toString (paramsM / 1000) ++ "B-" ++ roleHint
  nLayers_pos : 0 < nLayers := by decide
  nHeads_pos : 0 < nHeads := by decide
  headDim_pos : 0 < headDim := by decide
  seed_lt : seed < 2 ^ 63 := by decide

namespace MockBackend

/-- `MockBackend(params_m=…, role_hint=…)`. -/
def ofRole (paramsM : ℕ) (roleHint : String) : MockBackend := { paramsM, roleHint }

variable [Hashlib] [Unicode] (b : MockBackend)

/-- `[role@sizeB] `, in front of every answer. -/
def tag : String := "[" ++ b.roleHint ++ "@" ++ toString (b.paramsM / 1000) ++ "B] "

/-- `generate`. -/
def generate (prompt : String) : String :=
  let emb := hashToEmbedding prompt 32 b.seed
  let promptHash := Str.hex (Hashlib.blake2b [] (Str.utf8 prompt) 4)
  let reasoningSteps := max 1 (b.paramsM / 2000)
  let steps := String.intercalate "\n" ((List.range reasoningSteps).map fun i =>
    "  step " ++ toString (i + 1) ++ ": latent[" ++ toString i ++ "] = " ++
      fixed4 (emb.getD (i % 32) 0))
  let snippet := Str.prefixTo
    (String.ofList ((Str.strip prompt).toList.map fun c => if c = '\n' then ' ' else c)) 80
  b.tag ++ "prompt_id=" ++ promptHash ++ "\n" ++
    "input: " ++ Str.repr snippet ++ "\n" ++
    "reasoning (" ++ toString reasoningSteps ++ " steps):\n" ++ steps ++ "\n" ++
    "output: processed by " ++ b.modelId

/-- One key or value tensor of `encode`, of shape `(seq_len, n_heads, head_dim)`. -/
def layerTensor (prompt kind : String) (seqLen layer seed : ℕ) : Tensor where
  shape := [seqLen, b.nHeads, b.headDim]
  data := hashToEmbedding (prompt ++ "|layer=" ++ toString layer ++ "|kind=" ++ kind)
    (b.nHeads * b.headDim * seqLen) seed
  size_eq := by
    rw [hashToEmbedding_length, List.prod_cons, List.prod_cons, List.prod_singleton]
    exact Nat.mul_comm _ _

/-- `encode`: a fake prefill. -/
def encode (prompt : String) : Except Exn KVCache :=
  let seqLen := max 1 (prompt.length / 4)
  KVCache.create
    ((List.range b.nLayers).map fun layer =>
      b.layerTensor prompt "key" seqLen layer (b.seed + layer))
    ((List.range b.nLayers).map fun layer =>
      b.layerTensor prompt "val" seqLen layer (b.seed + layer + 1000))
    b.modelId b.nLayers (b.nHeads * b.headDim) b.nHeads prompt
    (intFromLittle (Hashlib.blake2b [] (Str.utf8 prompt) 4) % 32000) (seqLen - 1) []

/-- `decode`. -/
def decode (cache : KVCache) : String :=
  let transferred := cache.sourceModel ≠ b.modelId
  let suffix := if transferred then " (transferred from " ++ cache.sourceModel ++ ")" else ""
  b.tag ++ "decoded from cache (" ++ toString cache.sourceLayerCount ++ " layers, " ++
    "seq_len=" ++ toString cache.seqLen ++ ")" ++ suffix ++ "\n" ++
    "source: " ++ Str.repr (Str.prefixTo cache.sourceText 80) ++ "\n" ++
    "output: decoded by " ++ b.modelId

/-- The cache has this backend's shape. -/
def sameShape (cache : KVCache) : Bool :=
  cache.sourceLayerCount = b.nLayers && cache.sourceNHeads = b.nHeads &&
    cache.sourceHiddenSize = b.nHeads * b.headDim

/-- `transfer_cache`: a no-op between equal shapes, else an encoding of the source text. -/
def transferCache (cache : KVCache) : Except Exn KVCache :=
  if b.sameShape cache then .ok cache else b.encode cache.sourceText

/-- `count_tokens`. -/
def countTokens (text : String) : ℤ := Str.estimateTokens text

/-- The mock backend as a backend, in any world. -/
def backend {σ : Type} : Backend σ where
  paramsM := .int b.paramsM
  resolvedParamsM := .absent
  capabilities := ⟨true, false, false, true⟩
  modelId := b.modelId
  generate prompt _ := pure (b.generate prompt)
  encode prompt := liftExcept (b.encode prompt)
  decode cache _ := pure (b.decode cache)
  transferCache cache := liftExcept (b.transferCache cache)
  countTokens := some fun text => pure (countTokens text)

/-! ## Encoding and transfer keep the source text -/

omit [Unicode] in
/-- Every prompt is encoded, to a cache of its text. -/
theorem encode_ok (prompt : String) : ∃ c, b.encode prompt = .ok c ∧ c.sourceText = prompt := by
  unfold encode KVCache.create
  rw [dif_pos (by simp)]
  exact ⟨_, rfl, rfl⟩

omit [Unicode] in
/-- Every cache is accepted, and keeps its text. -/
theorem transferCache_ok (cache : KVCache) :
    ∃ c, b.transferCache cache = .ok c ∧ c.sourceText = cache.sourceText := by
  unfold transferCache
  split
  · exact ⟨cache, rfl, rfl⟩
  · exact b.encode_ok cache.sourceText

omit [Unicode] in
/-- What a backend encodes has its own shape, so handing a cache back to it changes nothing. -/
theorem transferCache_encode {prompt : String} {c : KVCache} (h : b.encode prompt = .ok c) :
    b.transferCache c = .ok c := by
  have hshape : b.sameShape c = true := by
    unfold encode KVCache.create at h
    rw [dif_pos (by simp)] at h
    cases h
    simp [sameShape]
  rw [transferCache, if_pos hshape]

end MockBackend

end Chen
