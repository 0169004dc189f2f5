import Chen.Backends.Layers
import Chen.Library.Effect
import Chen.Python.Numpy

/-!
# The vLLM backend

How it makes a cache of the blocks in which the engine keeps the keys and values of a sequence, and
adapts a cache of another model. The engine and its configuration are parameters.
-/

namespace Chen

open Effect
open RowMajor (InShape)

/-- `VLLMBackend`, with what its engine says of the model. -/
structure VLLMBackend where
  modelId : String
  numKvHeads : ℕ
  headSize : ℕ
  numLayers : ℕ

/-- `transfer_cache`. -/
def VLLMBackend.transferCache (b : VLLMBackend) (cache : KVCache) : Except Exn KVCache :=
  if cache.sourceNHeads ≠ b.numKvHeads ∨ cache.sourceHiddenSize ≠ b.numKvHeads * b.headSize then
    .error (.incompatibleCache ("Cannot transfer cache from '" ++ cache.sourceModel ++
      "' (hidden=" ++ toString cache.sourceHiddenSize ++ ", heads=" ++
      toString cache.sourceNHeads ++ ") to '" ++ b.modelId ++ "' (hidden=" ++
      toString (b.numKvHeads * b.headSize) ++ ", heads=" ++ toString b.numKvHeads ++
      "). vLLM requires matching KV layout."))
  else cache.fitLayers b.numLayers cache.metadata

/-- The `LLM` that the backend has loaded, and its `block_size`. -/
structure VLLMEngine (σ : Type) where
  blockSize : ℕ := 16
  /-- `tokenizer.encode(text)`. -/
  tokenize : String → List ℕ
  /-- `generate` with a budget of one token, and `get_block_table` of the sequence that it ran. -/
  prefill : String → EStateM Exn σ (List ℕ)
  /-- `driver_worker.gpu_cache`: the keys and the values of each layer, indexed by the block. -/
  gpuCache : EStateM Exn σ (List (Tensor × Tensor))

namespace VLLMBackend

variable {σ : Type}

/-- The tokens of a prompt: at least one. -/
def promptTokens (llm : VLLMEngine σ) (prompt : String) : List ℕ :=
  match llm.tokenize prompt with
  | [] => [0]
  | tokens => tokens

/-- `np.concatenate(blocks, axis=0)[:seq_len].astype(np.float32)`. -/
def joinBlocks [Numpy ℚ] (blocks : List Tensor) (seqLen : ℕ) : Except Exn Tensor := do
  let full ← (do (← Tensor.concatenate blocks).firstRows seqLen)
  pure (full.map Numpy.float32)

/-- The keys and values that a layer has in the blocks of a table, up to the sequence's length. -/
def extractLayer [Numpy ℚ] (blockTable : List ℕ) (seqLen : ℕ) (layer : Tensor × Tensor) :
    Except Exn (Tensor × Tensor) := do
  let blocks ← blockTable.mapM fun block => do
    pure (← layer.1.index [block], ← layer.2.index [block])
  let k ← joinBlocks (blocks.map (·.1)) seqLen
  let v ← joinBlocks (blocks.map (·.2)) seqLen
  pure (k, v)

/-- `encode`. -/
def encode [Numpy ℚ] (b : VLLMBackend) (llm : VLLMEngine σ) (prompt : String) :
    EStateM Exn σ KVCache := do
  let tokenIds := promptTokens llm prompt
  let blockTable ← llm.prefill prompt
  let gpuCache ← llm.gpuCache
  let layers ← liftExcept (gpuCache.mapM (extractLayer blockTable tokenIds.length))
  liftExcept (KVCache.create (layers.map (·.1)) (layers.map (·.2)) b.modelId gpuCache.length
    (b.numKvHeads * b.headSize) b.numKvHeads prompt (tokenIds.getLastD 0) (tokenIds.length - 1)
    [("vllm_block_size", toString llm.blockSize), ("vllm_block_table", toString blockTable)])

/-! ## Rows of blocks -/

/-- The blocks of the array have `bs` rows, and those of the table are among them. -/
def Paged (bs : ℕ) (blockTable : List ℕ) (t : Tensor) : Prop :=
  ∃ blocks row, t.shape = blocks :: bs :: row ∧ ∀ block ∈ blockTable, block < blocks

/-- `full` has `seqLen` rows, and row `p` is row `p mod bs` of the block at `p div bs`. -/
structure Linear [Numpy ℚ] (bs : ℕ) (blockTable : List ℕ) (seqLen : ℕ) (paged full : Tensor) :
    Prop where
  rows_eq : full.shape.head? = some seqLen
  row_eq : ∀ p < seqLen, ∃ block row, blockTable[p / bs]? = some block ∧
    paged.index [block, p % bs] = .ok row ∧ full.index [p] = .ok (row.map Numpy.float32)

/-- The array is a block of another. -/
structure IsBlock (t : Tensor) (bs : ℕ) (row : List ℕ) (block : ℕ) (u : Tensor) : Prop where
  shape_eq : u.shape = bs :: row
  get_eq : ∀ idx, InShape (bs :: row) idx → u.get idx = t.get (block :: idx)

section Extraction

variable {bs blocks seqLen : ℕ} {row blockTable : List ℕ} {t : Tensor}

/-- A block of the pool has its rows. -/
theorem index_block (hshape : t.shape = blocks :: bs :: row) {block : ℕ} (hblock : block < blocks) :
    ∃ u, t.index [block] = .ok u ∧ IsBlock t bs row block u := by
  obtain ⟨u, hu, hushape, hget⟩ :=
    Tensor.index_spec (show InShape [blocks] [block] from .cons hblock .nil) hshape
  exact ⟨u, hu, hushape, hget⟩

/-- The blocks of a table, one behind the other: a row is found by its block and its place there. -/
theorem concatenate_blocks {us : List Tensor} (hne : blockTable ≠ [])
    (hall : List.Forall₂ (IsBlock t bs row) blockTable us) :
    ∃ full, Tensor.concatenate us = .ok full ∧ full.shape = blockTable.length * bs :: row ∧
      ∀ p < blockTable.length * bs, ∃ block, blockTable[p / bs]? = some block ∧
        ∀ idx, InShape row idx → full.get (p :: idx) = t.get (block :: p % bs :: idx) := by
  have hlen : us.length = blockTable.length := hall.length_eq.symm
  have hus : us ≠ [] := by
    rintro rfl
    exact hne (List.eq_nil_of_length_eq_zero hlen.symm)
  have hshapes : ∀ u ∈ us, u.shape = bs :: row := by
    intro u hu
    obtain ⟨k, hk, rfl⟩ := List.getElem_of_mem hu
    exact (hall.get (by omega) hk).shape_eq
  obtain ⟨full, hfull, hshape, hget⟩ := Tensor.concatenate_spec hus hshapes
  rw [hlen] at hshape
  refine ⟨full, hfull, hshape, fun p hp => ?_⟩
  have hbs : 0 < bs := Nat.pos_of_mul_pos_left (Nat.zero_lt_of_lt hp)
  have hdiv : p / bs < blockTable.length := (Nat.div_lt_iff_lt_mul hbs).mpr hp
  refine ⟨blockTable[p / bs], List.getElem?_eq_getElem hdiv, fun idx hidx => ?_⟩
  have hblock := hall.get hdiv (hlen ▸ hdiv)
  calc full.get (p :: idx) = full.get ((p / bs * bs + p % bs) :: idx) := by
        rw [Nat.mul_comm, Nat.div_add_mod]
    _ = (us.get ⟨p / bs, hlen ▸ hdiv⟩).get (p % bs :: idx) :=
        hget _ _ idx _ (List.getElem?_eq_getElem (hlen ▸ hdiv)) (Nat.mod_lt _ hbs) hidx
    _ = t.get (blockTable[p / bs] :: p % bs :: idx) :=
        hblock.get_eq _ (.cons (Nat.mod_lt _ hbs) hidx)

/-- The blocks of a table, joined and cut, have the rows of the sequence in order. -/
theorem joinBlocks_spec [Numpy ℚ] {us : List Tensor} (hshape : t.shape = blocks :: bs :: row)
    (htable : ∀ block ∈ blockTable, block < blocks) (hpos : 0 < seqLen)
    (hcover : seqLen ≤ blockTable.length * bs)
    (hall : List.Forall₂ (IsBlock t bs row) blockTable us) :
    ∃ full, joinBlocks us seqLen = .ok full ∧ Linear bs blockTable seqLen t full := by
  have hne : blockTable ≠ [] := by
    rintro rfl
    simp at hcover
    omega
  obtain ⟨joined, hjoined, hjoinedShape, hrow⟩ := concatenate_blocks hne hall
  obtain ⟨first, hfirst, hfirstShape, hget⟩ := Tensor.firstRows_spec hjoinedShape hcover
  refine ⟨first.map Numpy.float32, ?_, congrArg List.head? hfirstShape, fun p hp => ?_⟩
  · rw [joinBlocks, hjoined]
    show (joined.firstRows seqLen >>= fun full => pure (full.map Numpy.float32)) = _
    rw [hfirst]
    rfl
  · obtain ⟨block, hblock, hrow⟩ := hrow p (by omega)
    -- a block that covers position `p` has a row for it
    have hbs : 0 < bs := by
      rcases Nat.eq_zero_or_pos bs with rfl | hbs
      · omega
      · exact hbs
    have hlead : InShape [blocks, bs] [block, p % bs] :=
      .cons (htable block (List.mem_of_getElem? hblock)) (.cons (Nat.mod_lt _ hbs) .nil)
    obtain ⟨u, hu, hushape, huget⟩ := @Tensor.index_spec _ _ _ row hlead hshape
    refine ⟨block, u, hblock, hu, ?_⟩
    have hfirst : InShape [seqLen] [p] := .cons hp .nil
    refine Tensor.index_eq hfirst ?_ fun idx hidx => ?_
    · show first.shape = [seqLen] ++ u.shape
      rw [hfirstShape, hushape]
      rfl
    · replace hidx : InShape u.shape idx := hidx
      have hidx' : InShape row idx := hushape ▸ hidx
      have hfirstIdx : InShape first.shape (p :: idx) := hfirstShape ▸ .cons hp hidx'
      show _ = (first.map Numpy.float32).get (p :: idx)
      rw [Tensor.get_map _ hidx, Tensor.get_map _ hfirstIdx, hget _ hfirstIdx, hrow idx hidx',
        huget idx hidx']
      rfl

/-- The keys and the values of a layer come out in the order of the sequence. -/
theorem extractLayer_spec [Numpy ℚ] {layer : Tensor × Tensor} (hk : Paged bs blockTable layer.1)
    (hv : Paged bs blockTable layer.2) (hpos : 0 < seqLen)
    (hcover : seqLen ≤ blockTable.length * bs) :
    ∃ kv, extractLayer blockTable seqLen layer = .ok kv ∧
      Linear bs blockTable seqLen layer.1 kv.1 ∧ Linear bs blockTable seqLen layer.2 kv.2 := by
  obtain ⟨kblocks, krow, hkshape, hktable⟩ := hk
  obtain ⟨vblocks, vrow, hvshape, hvtable⟩ := hv
  have hindex : ∀ block ∈ blockTable, ∃ u : Tensor × Tensor,
      (do pure (← layer.1.index [block], ← layer.2.index [block])) = Except.ok u ∧
        IsBlock layer.1 bs krow block u.1 ∧ IsBlock layer.2 bs vrow block u.2 := by
    intro block hblock
    obtain ⟨k, hk, hkblock⟩ := index_block hkshape (hktable block hblock)
    obtain ⟨v, hv, hvblock⟩ := index_block hvshape (hvtable block hblock)
    exact ⟨(k, v), by rw [hk, hv]; rfl, hkblock, hvblock⟩
  obtain ⟨us, hus, hall⟩ := except_mapM_forall₂ hindex
  obtain ⟨k, hk, hklinear⟩ := joinBlocks_spec hkshape hktable hpos hcover
    (List.forall₂_map_right_iff.mpr (hall.imp fun _ _ hblock => hblock.1))
  obtain ⟨v, hv, hvlinear⟩ := joinBlocks_spec hvshape hvtable hpos hcover
    (List.forall₂_map_right_iff.mpr (hall.imp fun _ _ hblock => hblock.2))
  refine ⟨(k, v), ?_, hklinear, hvlinear⟩
  rw [extractLayer, hus]
  show (joinBlocks (us.map Prod.fst) seqLen >>= fun k =>
    joinBlocks (us.map Prod.snd) seqLen >>= fun v => pure (k, v)) = _
  rw [hk, hv]
  rfl

end Extraction

section Encode

variable {bs : ℕ} {b : VLLMBackend} {llm : VLLMEngine σ} {prompt : String}

/-- A prompt has at least one token. -/
theorem promptTokens_ne_nil : promptTokens llm prompt ≠ [] := by
  rw [promptTokens]
  split
  case h_1 => exact List.cons_ne_nil _ _
  case h_2 h => exact h

/-- A cache has the rows that the engine keeps of the prompt, in the order of its tokens. -/
theorem encode_linear [Numpy ℚ] {s s₁ s₂ : σ} {blockTable : List ℕ}
    {gpuCache : List (Tensor × Tensor)}
    (hprefill : llm.prefill prompt s = .ok blockTable s₁)
    (hgpu : llm.gpuCache s₁ = .ok gpuCache s₂)
    (hpaged : ∀ layer ∈ gpuCache, Paged bs blockTable layer.1 ∧ Paged bs blockTable layer.2)
    (hcover : (promptTokens llm prompt).length ≤ blockTable.length * bs) :
    ∃ cache, b.encode llm prompt s = .ok cache s₂ ∧
      List.Forall₂ (fun layer => Linear bs blockTable (promptTokens llm prompt).length layer.1)
        gpuCache cache.keys ∧
      List.Forall₂ (fun layer => Linear bs blockTable (promptTokens llm prompt).length layer.2)
        gpuCache cache.values := by
  have hpos : 0 < (promptTokens llm prompt).length :=
    List.length_pos_of_ne_nil promptTokens_ne_nil
  obtain ⟨layers, hlayers, hall⟩ := except_mapM_forall₂ fun layer hlayer =>
    extractLayer_spec (hpaged layer hlayer).1 (hpaged layer hlayer).2 hpos hcover
  -- as many keys as values, so that `KVCache` does not raise
  have hcreate : ∃ cache, KVCache.create (layers.map (·.1)) (layers.map (·.2)) b.modelId
      gpuCache.length (b.numKvHeads * b.headSize) b.numKvHeads prompt
      ((promptTokens llm prompt).getLastD 0) ((promptTokens llm prompt).length - 1)
      [("vllm_block_size", toString llm.blockSize), ("vllm_block_table", toString blockTable)] =
        .ok cache ∧ cache.keys = layers.map (·.1) ∧ cache.values = layers.map (·.2) := by
    rw [KVCache.create, dif_pos (by rw [List.length_map, List.length_map])]
    exact ⟨_, rfl, rfl, rfl⟩
  obtain ⟨cache, hcache, hkeys, hvalues⟩ := hcreate
  refine ⟨cache, ?_, ?_, ?_⟩
  · exact bind_eq_ok.mpr ⟨_, _, hprefill, bind_eq_ok.mpr ⟨_, _, hgpu, bind_eq_ok.mpr
      ⟨layers, s₂, liftExcept_eq_ok.mpr ⟨hlayers, rfl⟩, liftExcept_eq_ok.mpr ⟨hcache, rfl⟩⟩⟩⟩
  · rw [hkeys, List.forall₂_map_right_iff]
    exact hall.imp fun _ _ hlinear => hlinear.1
  · rw [hvalues, List.forall₂_map_right_iff]
    exact hall.imp fun _ _ hlinear => hlinear.2

/-- One layer of three blocks, of two rows each. -/
def threeBlocks : List (Tensor × Tensor) :=
  [(⟨[3, 2, 1], [0, 1, 2, 3, 4, 5], rfl⟩, ⟨[3, 2, 1], [6, 7, 8, 9, 10, 11], rfl⟩)]

/-- Three tokens in the blocks 2 and 0. -/
def pagedEngine : VLLMEngine Unit where
  blockSize := 2
  tokenize _ := [7, 8, 9]
  prefill _ := pure [2, 0]
  gpuCache := pure threeBlocks

/-- Two blocks that stand in the pool in the other order. -/
theorem encode_linear_paged :
    letI := Numpy.rat
    ∃ cache, VLLMBackend.encode ⟨"m", 1, 1, 1⟩ pagedEngine "p" () = .ok cache () ∧
      List.Forall₂ (fun layer => Linear 2 [2, 0] 3 layer.1) threeBlocks cache.keys ∧
      List.Forall₂ (fun layer => Linear 2 [2, 0] 3 layer.2) threeBlocks cache.values := by
  let _ := Numpy.rat
  refine @encode_linear Unit 2 ⟨"m", 1, 1, 1⟩ pagedEngine "p" _ () () () [2, 0] threeBlocks rfl rfl
    ?_ (by decide)
  intro layer hlayer
  cases List.mem_singleton.mp hlayer
  exact ⟨⟨3, [1], rfl, by decide⟩, ⟨3, [1], rfl, by decide⟩⟩

end Encode

end VLLMBackend

end Chen
