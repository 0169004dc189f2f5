import Chen.Backends.LlamaCpp

/-!
# The two layouts of llama.cpp

A context keeps keys and values as `[n_layer, 2, n_head_kv, seq_len, head_dim]`, a cache as one
`[seq_len, n_head_kv, head_dim]` for each layer. `encode` goes from the first layout to the second
and `decode` back.
-/

namespace Chen

open RowMajor (InShape)

namespace LlamaCppBackend

section Slices

variable {arr flat : Tensor} {layers heads seqLen headDim : ℕ}

/-- What the cache has of the keys (`c = 0`) or the values (`c = 1`) of a layer. -/
structure IsSlice (arr : Tensor) (seqLen heads headDim layer c : ℕ) (t : Tensor) : Prop where
  shape_eq : t.shape = [seqLen, heads, headDim]
  get_eq : ∀ s < seqLen, ∀ h < heads, ∀ d < headDim, t.get [s, h, d] = arr.get [layer, c, h, s, d]

/-- The keys or values of one layer, with the axis of the tokens in front. -/
theorem slice_spec (harr : arr.shape = [layers, 2, heads, seqLen, headDim]) {layer c : ℕ}
    (hlayer : layer < layers) (hc : c < 2) :
    ∃ t, (do (← arr.index [layer, c]).transpose [1, 0, 2]) = .ok t ∧
      IsSlice arr seqLen heads headDim layer c t := by
  have hlead : InShape [layers, 2] [layer, c] := .cons hlayer (.cons hc .nil)
  obtain ⟨inner, hinner, hinnerShape, hinnerGet⟩ := Tensor.index_spec hlead harr
  obtain ⟨t, ht, hshape, hget⟩ := Tensor.transpose_102 hinnerShape
  refine ⟨t, by rw [hinner]; exact ht, hshape, fun s hs h hh d hd => ?_⟩
  rw [hget s hs h hh d hd, hinnerGet _ (Tensor.inShape_three hh hs hd)]
  rfl

/-- The other transposition puts the elements back under the indices that they came from. -/
theorem store_spec (hflat : flat.shape = [layers, 2, heads, seqLen, headDim]) {layer c : ℕ}
    (hlayer : layer < layers) (hc : c < 2) {t : Tensor}
    (ht : IsSlice arr seqLen heads headDim layer c t) :
    ∃ flat', (do flat.setIndex [layer, c] (← t.transpose [1, 0, 2])) = .ok flat' ∧
      flat'.shape = flat.shape ∧ ∀ idx, InShape flat.shape idx →
        flat'.get idx = if idx.take 2 = [layer, c] then arr.get idx else flat.get idx := by
  obtain ⟨u, hu, hushape, huget⟩ := Tensor.transpose_102 ht.shape_eq
  have hlead : InShape [layers, 2] [layer, c] := .cons hlayer (.cons hc .nil)
  have hshapes : flat.shape = [layers, 2] ++ u.shape := by rw [hflat, hushape]; rfl
  obtain ⟨flat', hflat', hshape, hget⟩ := Tensor.setIndex_spec hlead hshapes
  refine ⟨flat', by rw [hu]; exact hflat', hshape, fun idx hidx => ?_⟩
  rw [hget idx hidx]
  show (if idx.take 2 = [layer, c] then u.get (idx.drop 2) else flat.get idx) = _
  by_cases hlead : idx.take 2 = [layer, c]
  · have hrest : InShape [heads, seqLen, headDim] (idx.drop 2) := by
      rw [hflat] at hidx
      exact List.forall₂_drop 2 hidx
    obtain ⟨h, hh, s, hs, d, hd, hdrop⟩ := Tensor.exists_of_inShape_three hrest
    have hsplit : idx = [layer, c, h, s, d] := by
      rw [← List.take_append_drop 2 idx, hlead, hdrop]
      rfl
    rw [if_pos hlead, if_pos hlead, hdrop, huget h hh s hs d hd, ht.get_eq s hs h hh d hd, hsplit]
  · rw [if_neg hlead, if_neg hlead]

/-- A layer's keys and values are stored under its index, and the other layers are left alone. -/
theorem storeLayer_spec (hflat : flat.shape = [layers, 2, heads, seqLen, headDim]) {layer : ℕ}
    (hlayer : layer < layers) {key value : Tensor}
    (hkey : IsSlice arr seqLen heads headDim layer 0 key)
    (hvalue : IsSlice arr seqLen heads headDim layer 1 value) :
    ∃ flat', storeLayer flat layer key value = .ok flat' ∧ flat'.shape = flat.shape ∧
      ∀ idx, InShape flat.shape idx →
        flat'.get idx = if idx.head? = some layer then arr.get idx else flat.get idx := by
  obtain ⟨keyed, hkeyed, hkeyedShape, hkeyedGet⟩ := store_spec hflat hlayer (by decide) hkey
  obtain ⟨flat', hflat', hshape, hget⟩ :=
    store_spec (hkeyedShape.trans hflat) hlayer (by decide) hvalue
  refine ⟨flat', ?_, hshape.trans hkeyedShape, fun idx hidx => ?_⟩
  · rw [storeLayer, hkeyed]
    exact hflat'
  · rw [hget idx (hkeyedShape ▸ hidx), hkeyedGet idx hidx]
    rw [hflat] at hidx
    obtain ⟨i, _, hi, htail, rfl⟩ := List.forall₂_cons_right_iff.mp hidx
    obtain ⟨c, rest, hc, -, rfl⟩ := List.forall₂_cons_right_iff.mp htail
    -- The second index is that of the keys or of the values.
    by_cases hlayer' : i = layer
    · have htwo : c = 0 ∨ c = 1 := by omega
      rcases htwo with rfl | rfl <;> simp [hlayer']
    · simp [hlayer']

/-- Storing the layers one after the other makes the buffer that they were read from. -/
theorem foldlM_storeLayerOf {keys values : List Tensor} (hzero : flat.shape = arr.shape)
    (harr : arr.shape = [layers, 2, heads, seqLen, headDim])
    (hkeys : ∀ layer < layers, ∃ key, keys[layer]? = some key ∧
      IsSlice arr seqLen heads headDim layer 0 key)
    (hvalues : ∀ layer < layers, ∃ value, values[layer]? = some value ∧
      IsSlice arr seqLen heads headDim layer 1 value) {m : ℕ} (hm : m ≤ layers) :
    ∃ flat', (List.range m).foldlM (storeLayerOf keys values) flat = .ok flat' ∧
      flat'.shape = arr.shape ∧ ∀ idx, InShape arr.shape idx →
        flat'.get idx = if idx.headD 0 < m then arr.get idx else flat.get idx := by
  induction m with
  | zero => exact ⟨flat, rfl, hzero, fun idx _ => by simp⟩
  | succ m ih =>
    obtain ⟨before, hbefore, hshape, hget⟩ := ih (by omega)
    obtain ⟨key, hkeyAt, hkey⟩ := hkeys m (by omega)
    obtain ⟨value, hvalueAt, hvalue⟩ := hvalues m (by omega)
    obtain ⟨after, hafter, hshape', hget'⟩ :=
      storeLayer_spec (hshape.trans harr) (by omega) hkey hvalue
    refine ⟨after, ?_, hshape'.trans hshape, fun idx hidx => ?_⟩
    · have hstore : storeLayerOf keys values before m = .ok after := by
        rw [storeLayerOf, hkeyAt, hvalueAt]
        exact hafter
      rw [List.range_succ, List.foldlM_append, hbefore]
      show List.foldlM (storeLayerOf keys values) before [m] = .ok after
      rw [List.foldlM_cons, hstore]
      rfl
    · rw [hget' idx (hshape ▸ hidx), hget idx hidx]
      rw [harr] at hidx
      obtain ⟨i, rest, hi, -, rfl⟩ := List.forall₂_cons_right_iff.mp hidx
      -- The new layer, those in front of it and those behind it.
      rcases lt_trichotomy i m with hbelow | rfl | habove
      · have hsucc : i < m + 1 := by omega
        simp [hbelow, hbelow.ne, hsucc]
      · simp
      · have hsucc : ¬ i < m + 1 := by omega
        simp [habove.ne', habove.not_gt, hsucc]

/-- As many layers as there are need no padding. -/
theorem padLayers_self (layers : List Tensor) : padLayers layers layers.length = .ok layers := by
  cases layers with
  | nil => rfl
  | cons first rest =>
    rw [padLayers, Nat.sub_self, List.replicate_zero, List.append_nil]

/-- A layer is read as its keys and its values. -/
theorem readLayer_spec (harr : arr.shape = [layers, 2, heads, seqLen, headDim]) {layer : ℕ}
    (hlayer : layer < layers) :
    ∃ kv, readLayer arr layer = .ok kv ∧ IsSlice arr seqLen heads headDim layer 0 kv.1 ∧
      IsSlice arr seqLen heads headDim layer 1 kv.2 := by
  obtain ⟨k, hk, hkSlice⟩ := slice_spec harr hlayer (c := 0) (by decide)
  obtain ⟨v, hv, hvSlice⟩ := slice_spec harr hlayer (c := 1) (by decide)
  exact ⟨(k, v), by rw [readLayer, hk, hv]; rfl, hkSlice, hvSlice⟩

end Slices

variable {b : LlamaCppBackend}

/-- The cache has the layers of a buffer, under the model's name and with its widths. -/
structure ReadFrom (b : LlamaCppBackend) (arr : Tensor) (seqLen : ℕ) (cache : KVCache) : Prop where
  sourceModel_eq : cache.sourceModel = b.modelId
  mismatched_eq : b.mismatched cache = false
  length_keys : cache.keys.length = b.nLayer
  keys : ∀ layer < b.nLayer, ∃ key, cache.keys[layer]? = some key ∧
    IsSlice arr seqLen b.nHeadKv b.headDim layer 0 key
  values : ∀ layer < b.nLayer, ∃ value, cache.values[layer]? = some value ∧
    IsSlice arr seqLen b.nHeadKv b.headDim layer 1 value

/-- A buffer of the right size is given the shape of the model's cache. -/
theorem reshapeBuffer_spec {seqLen : ℕ} {kvArray : List ℚ}
    (hsize : kvArray.length = b.totalSize seqLen) :
    ∃ arr, b.reshapeBuffer seqLen kvArray = .ok arr ∧
      arr.shape = [b.nLayer, 2, b.nHeadKv, seqLen, b.headDim] ∧ arr.data = kvArray := by
  refine Tensor.reshape_spec _ ?_
  simp only [List.prod_cons, List.prod_nil, hsize, totalSize, Nat.mul_assoc]

/-- What `encode` makes of a buffer: for every layer the keys and the values, the tokens first. -/
theorem cacheOf_spec (prompt : String) {tokenIds : List ℕ} (htokens : tokenIds ≠ [])
    {kvArray : List ℚ} {arr : Tensor} (harr : b.reshapeBuffer tokenIds.length kvArray = .ok arr)
    (hshape : arr.shape = [b.nLayer, 2, b.nHeadKv, tokenIds.length, b.headDim]) :
    ∃ cache, b.cacheOf prompt tokenIds kvArray = .ok cache ∧
      b.ReadFrom arr tokenIds.length cache := by
  obtain ⟨layers, hlayers, hcount, hread⟩ :=
    Effect.except_mapM_range fun layer hlayer => readLayer_spec hshape hlayer
  have hlast := List.getLast?_eq_some_getLast htokens
  have hcache : ∃ cache, b.cacheOf prompt tokenIds kvArray = .ok cache ∧
      cache.keys = layers.map (·.1) ∧ cache.values = layers.map (·.2) ∧
      cache.sourceModel = b.modelId ∧ cache.sourceNHeads = b.nHeadKv ∧
      cache.sourceHiddenSize = b.nHeadKv * b.headDim := by
    simp only [cacheOf, harr, bind, Except.bind, hlayers, hlast]
    rw [KVCache.create, dif_pos (by simp)]
    exact ⟨_, rfl, rfl, rfl, rfl, rfl, rfl⟩
  obtain ⟨cache, hcache, hkeys, hvalues, hmodel, hheads, hhidden⟩ := hcache
  refine ⟨cache, hcache, hmodel, by simp [mismatched, hheads, hhidden], ?_, ?_, ?_⟩
  · rw [hkeys, List.length_map, hcount]
  · intro layer hlayer
    obtain ⟨kv, hkv, hkey, -⟩ := hread layer hlayer
    exact ⟨kv.1, by rw [hkeys, List.getElem?_map, hkv]; rfl, hkey⟩
  · intro layer hlayer
    obtain ⟨kv, hkv, -, hvalue⟩ := hread layer hlayer
    exact ⟨kv.2, by rw [hvalues, List.getElem?_map, hkv]; rfl, hvalue⟩

namespace ReadFrom

variable {cache : KVCache} {arr : Tensor} {seqLen : ℕ}

/-- A cache that was read has the length it was read with. -/
theorem seqLen_eq (h : b.ReadFrom arr seqLen cache) (hlayers : 0 < b.nLayer) :
    cache.seqLen = seqLen := by
  obtain ⟨key, hkey, hslice⟩ := h.keys 0 hlayers
  rw [KVCache.seqLen]
  cases hk : cache.keys with
  | nil => simp [hk] at hkey
  | cons first rest =>
    rw [hk, List.getElem?_cons_zero] at hkey
    cases hkey
    simp [hslice.shape_eq]

/-- What `decode` makes of the layers is the buffer that they were read from. -/
theorem flatten_eq (h : b.ReadFrom arr seqLen cache) (hlayers : 0 < b.nLayer)
    (harr : arr.shape = [b.nLayer, 2, b.nHeadKv, seqLen, b.headDim]) :
    b.flatten cache = .ok arr := by
  have hpadKeys : padLayers (cache.keys.take b.nLayer) b.nLayer = .ok cache.keys := by
    rw [← h.length_keys, List.take_length, padLayers_self]
  have hpadValues : padLayers (cache.values.take b.nLayer) b.nLayer = .ok cache.values := by
    rw [← h.length_keys, cache.layers_eq, List.take_length, padLayers_self]
  have hzero : (Tensor.zeros [b.nLayer, 2, b.nHeadKv, seqLen, b.headDim]).shape = arr.shape :=
    harr.symm
  obtain ⟨flat, hflat, hshape, hget⟩ := foldlM_storeLayerOf hzero harr h.keys h.values le_rfl
  have heq : flat = arr := by
    refine Tensor.ext_get hshape fun idx hidx => ?_
    rw [hshape] at hidx
    rw [hget idx hidx]
    -- Every index begins with a layer below the last, so that all elements have been stored.
    rw [harr] at hidx
    obtain ⟨i, rest, hi, -, rfl⟩ := List.forall₂_cons_right_iff.mp hidx
    exact if_pos hi
  rw [flatten, hpadKeys, hpadValues, h.seqLen_eq hlayers]
  show List.foldlM (storeLayerOf cache.keys cache.values) _ _ = _
  rw [hflat, heq]

/-- On the same model, `decode` injects the buffer. -/
theorem decode_eq {σ : Type} [FloatBytes] (h : b.ReadFrom arr seqLen cache)
    (hflat : b.flatten cache = .ok arr) (llm : Llama σ) (maxTokens : ℤ) :
    b.decode llm cache maxTokens = (do
      inject llm arr.toBytes
      llm.eval [cache.lastTokenId]
      llm.createCompletion "" maxTokens) := by
  rw [decode, h.mismatched_eq, if_neg (by decide), if_neg (by simp [h.sourceModel_eq]), hflat]
  rfl

end ReadFrom

section Runs

variable {σ : Type} [FloatBytes] {llm : Llama σ} {prompt : String} {s s₁ s₂ s₃ : σ}

omit [FloatBytes] in
/-- A prompt has at least one token. -/
theorem promptTokens_ne_nil (llm : Llama σ) (prompt : String) : promptTokens llm prompt ≠ [] := by
  rw [promptTokens]
  split <;> simp_all

/-- `encode` after its prefill. -/
theorem encode_eq (hreset : llm.reset s = .ok () s₁)
    (heval : llm.eval (promptTokens llm prompt) s₁ = .ok () s₂) {kvArray : List ℚ}
    (hextract : extract llm (b.totalSize (promptTokens llm prompt).length) s₂ = .ok kvArray s₃)
    {cache : KVCache} (hcache : b.cacheOf prompt (promptTokens llm prompt) kvArray = .ok cache) :
    b.encode llm prompt s = .ok cache s₃ := by
  rw [encode, Effect.bind_ok hreset, Effect.bind_ok heval, Effect.bind_ok hextract, hcache]
  rfl

/-- A cache that `encode` read is written back by `decode`, on the same model, as the buffer. -/
theorem encode_spec (hlayers : 1 ≤ b.nLayer) (hreset : llm.reset s = .ok () s₁)
    (heval : llm.eval (promptTokens llm prompt) s₁ = .ok () s₂) {kvArray : List ℚ}
    (hextract : extract llm (b.totalSize (promptTokens llm prompt).length) s₂ = .ok kvArray s₃)
    (hsize : kvArray.length = b.totalSize (promptTokens llm prompt).length) :
    ∃ cache flat, b.encode llm prompt s = .ok cache s₃ ∧
      b.reshapeBuffer (promptTokens llm prompt).length kvArray = .ok flat ∧ flat.data = kvArray ∧
      b.flatten cache = .ok flat ∧ ∀ maxTokens, b.decode llm cache maxTokens = (do
        inject llm flat.toBytes
        llm.eval [cache.lastTokenId]
        llm.createCompletion "" maxTokens) := by
  obtain ⟨flat, hreshape, hshape, hdata⟩ := reshapeBuffer_spec hsize
  obtain ⟨cache, hcache, hread⟩ :=
    cacheOf_spec prompt (promptTokens_ne_nil llm prompt) hreshape hshape
  have hflat := hread.flatten_eq hlayers hshape
  exact ⟨cache, flat, encode_eq hreset heval hextract hcache, hreshape, hdata, hflat,
    hread.decode_eq hflat llm⟩

/-- Reading the buffer of a context into a cache and writing it back changes no element: the array
that `decode` rebuilds is the one that `encode` reshaped, and holds what was read. -/
theorem decode_encode (hlayers : 1 ≤ b.nLayer) (hreset : llm.reset s = .ok () s₁)
    (heval : llm.eval (promptTokens llm prompt) s₁ = .ok () s₂) {kvArray : List ℚ}
    (hextract : extract llm (b.totalSize (promptTokens llm prompt).length) s₂ = .ok kvArray s₃)
    (hsize : kvArray.length = b.totalSize (promptTokens llm prompt).length) :
    ∃ cache flat, b.encode llm prompt s = .ok cache s₃ ∧ b.flatten cache = .ok flat ∧
      b.reshapeBuffer (promptTokens llm prompt).length kvArray = .ok flat ∧ flat.data = kvArray ∧
      ∀ maxTokens, b.decode llm cache maxTokens = (do
        inject llm flat.toBytes
        llm.eval [cache.lastTokenId]
        llm.createCompletion "" maxTokens) := by
  obtain ⟨cache, flat, hencode, hreshape, hdata, hflat, hdecode⟩ :=
    encode_spec hlayers hreset heval hextract hsize
  exact ⟨cache, flat, hencode, hflat, hreshape, hdata, hdecode⟩

end Runs

/-- A context without the high-level API, in whose buffer every element is its own index. -/
def countingContext : Llama Unit where
  tokenize _ _ := [7, 8]
  reset := pure ()
  eval _ := pure ()
  getKvCache := throw (.other "AttributeError" "get_kv_cache")
  setKvCache _ := throw (.other "AttributeError" "set_kv_cache")
  readPointer count := pure ((List.range count).map fun i : ℕ => (i : ℚ))
  writePointer _ := pure ()
  call _ _ := pure ""
  createCompletion _ _ := pure ""

/-- Two layers of two heads with three dimensions. -/
def twoLayers : LlamaCppBackend where
  modelId := "llama_cpp:two.gguf"
  nLayer := 2
  nEmbd := 6
  nHead := 2
  nHead_pos := Nat.two_pos

/-- Two layers of counted elements. -/
theorem decode_encode_twoLayers : ∃ cache flat,
    @encode Unit FloatBytes.zeros twoLayers countingContext "p" () = .ok cache () ∧
      twoLayers.flatten cache = .ok flat ∧
      twoLayers.reshapeBuffer 2 ((List.range 48).map fun i : ℕ => (i : ℚ)) = .ok flat ∧
      flat.data = (List.range 48).map fun i : ℕ => (i : ℚ) := by
  obtain ⟨cache, flat, hencode, hflat, hreshape, hdata, -⟩ := @decode_encode twoLayers Unit
    FloatBytes.zeros countingContext "p" () () () () (by decide) rfl rfl
    ((List.range 48).map fun i : ℕ => (i : ℚ)) rfl (by rw [List.length_map, List.length_range]; rfl)
  exact ⟨cache, flat, hencode, hflat, hreshape, hdata⟩

/-! ## The width of an element -/

section Widths

variable {σ : Type} [FloatBytes] {llm : Llama σ} {prompt : String} {s s₁ s₂ s₃ : σ}

/-- A buffer that is long enough has the elements asked for. -/
theorem fromBuffer16_eq_ok {data : Bytes} {count : ℕ} (h : 2 * count ≤ data.length) :
    ∃ elements, fromBuffer16 data count = .ok elements ∧ elements.length = count := by
  rw [fromBuffer16, if_neg (by omega)]
  exact ⟨_, rfl, by simp⟩

/-- Four bytes are written for each element. -/
theorem length_toBytes (t : Tensor) : t.toBytes.length = 4 * t.data.length := by
  rw [Tensor.toBytes]
  induction t.data with
  | nil => rfl
  | cons x xs ih =>
    rw [List.flatMap_cons, List.length_append, ih, FloatBytes.length_single, List.length_cons]
    omega

/-- The elements of the buffer that the library returns. -/
theorem extract_of_getKvCache {data : Bytes} {count : ℕ} {elements : List ℚ}
    (hget : llm.getKvCache s₂ = .ok data s₃) (helements : fromBuffer16 data count = .ok elements) :
    extract llm count s₂ = .ok elements s₃ := by
  have hread : (do liftExcept (fromBuffer16 (← llm.getKvCache) count) : EStateM Exn σ (List ℚ)) s₂ =
      .ok elements s₃ := by
    rw [Effect.bind_ok hget, helements]
    rfl
  rw [extract, hread]

/-- What is written to a context's buffer has the format of what was read from it: as many bytes,
and the same elements of the same width. -/
def SameFormat (read written : Bytes) (count : ℕ) : Prop :=
  written.length = read.length ∧ fromBuffer16 written count = fromBuffer16 read count

/-- The bytes that `encode` reads are two for an element, those that `decode` writes are four. -/
theorem decode_doubles (hlayers : 1 ≤ b.nLayer) (hheads : 1 ≤ b.nHeadKv) (hdim : 1 ≤ b.headDim)
    (hreset : llm.reset s = .ok () s₁)
    (heval : llm.eval (promptTokens llm prompt) s₁ = .ok () s₂) {data : Bytes}
    (hget : llm.getKvCache s₂ = .ok data s₃)
    (hdata : 2 * b.totalSize (promptTokens llm prompt).length ≤ data.length) :
    ∃ cache flat, b.encode llm prompt s = .ok cache s₃ ∧ b.flatten cache = .ok flat ∧
      (∀ maxTokens, b.decode llm cache maxTokens = (do
        inject llm flat.toBytes
        llm.eval [cache.lastTokenId]
        llm.createCompletion "" maxTokens)) ∧
      flat.toBytes.length = 4 * b.totalSize (promptTokens llm prompt).length ∧
      ¬ SameFormat (data.take (2 * b.totalSize (promptTokens llm prompt).length)) flat.toBytes
        (b.totalSize (promptTokens llm prompt).length) := by
  obtain ⟨elements, helements, hsize⟩ := fromBuffer16_eq_ok hdata
  obtain ⟨cache, flat, hencode, -, hflatData, hflat, hdecode⟩ :=
    encode_spec hlayers hreset heval (extract_of_getKvCache hget helements) hsize
  have hlength : flat.toBytes.length = 4 * b.totalSize (promptTokens llm prompt).length := by
    rw [length_toBytes, hflatData, hsize]
  have hpos : 0 < b.totalSize (promptTokens llm prompt).length := by
    have htokens := List.length_pos_of_ne_nil (promptTokens_ne_nil llm prompt)
    have hpairs : 0 < b.nLayer * 2 * b.nHeadKv :=
      Nat.mul_pos (Nat.mul_pos hlayers (by decide)) hheads
    exact Nat.mul_pos (Nat.mul_pos hpairs htokens) hdim
  refine ⟨cache, flat, hencode, hflat, hdecode, hlength, fun hsame => ?_⟩
  have hread := hsame.1
  rw [hlength, List.length_take, min_eq_left hdata] at hread
  omega

end Widths

/-- A context whose buffer is two zeros. -/
def zeroContext : Llama Unit where
  tokenize _ _ := [7]
  reset := pure ()
  eval _ := pure ()
  getKvCache := pure [0, 0, 0, 0]
  setKvCache _ := pure ()
  readPointer count := pure (List.replicate count 0)
  writePointer _ := pure ()
  call _ _ := pure ""
  createCompletion _ _ := pure ""

/-- One layer of one head with one dimension. -/
def oneLayer : LlamaCppBackend where
  modelId := "llama_cpp:one.gguf"
  nLayer := 1
  nEmbd := 1
  nHead := 1

/-- One layer of one token. -/
theorem decode_doubles_oneLayer : ∃ cache flat,
    @encode Unit FloatBytes.zeros oneLayer zeroContext "p" () = .ok cache () ∧
      oneLayer.flatten cache = .ok flat ∧ (@Tensor.toBytes FloatBytes.zeros flat).length = 8 := by
  obtain ⟨cache, flat, hencode, hflat, -, hlength, -⟩ := @decode_doubles oneLayer Unit
    FloatBytes.zeros zeroContext "p" () () () () (by decide) (by decide) (by decide) rfl rfl
    [0, 0, 0, 0] rfl (by decide)
  exact ⟨cache, flat, hencode, hflat, hlength⟩

/-- Four bytes are read and eight are written. -/
theorem formats_differ : ∃ cache flat,
    @encode Unit FloatBytes.zeros oneLayer zeroContext "p" () = .ok cache () ∧
      oneLayer.flatten cache = .ok flat ∧
      ¬ @SameFormat FloatBytes.zeros [0, 0, 0, 0] (@Tensor.toBytes FloatBytes.zeros flat) 2 := by
  obtain ⟨cache, flat, hencode, -, hdata, hflat, -⟩ := @encode_spec oneLayer Unit FloatBytes.zeros
    zeroContext "p" () () () () (by decide) rfl rfl [0, 0] rfl rfl
  refine ⟨cache, flat, hencode, hflat, fun hsame => ?_⟩
  have hlength := hsame.1
  rw [@length_toBytes FloatBytes.zeros, hdata] at hlength
  exact absurd hlength (by decide)

end LlamaCppBackend

end Chen
