import Chen.Backends.HuggingFace

/-!
# The layout of a HuggingFace cache

A cache documents its layers as `[seq_len, n_heads, head_dim]`. What `_normalize_shape` makes of the
three axes of a layer without its batch is another order of them.
-/

namespace Chen

/-- What a model with `heads` heads of `headDim` returns for `seqLen` tokens, with the axis of the
batch: the heads apart, or side by side. -/
def IsLayer (arr : Tensor) (seqLen heads headDim : ℕ) : Prop :=
  arr.shape = [1, heads, seqLen, headDim] ∨ arr.shape = [1, seqLen, heads * headDim]

/-- The element for a token, a head and a dimension. -/
def layerElement (arr : Tensor) (headDim s h d : ℕ) : ℚ :=
  if arr.shape.length = 4 then arr.get [0, h, s, d] else arr.get [0, s, h * headDim + d]

/-- The layout that a cache documents. -/
structure Documented (out arr : Tensor) (seqLen heads headDim : ℕ) : Prop where
  shape_eq : out.shape = [seqLen, heads, headDim]
  get_eq : ∀ s < seqLen, ∀ h < heads, ∀ d < headDim,
    out.get [s, h, d] = layerElement arr headDim s h d

/-- The heads are side by side, or the three axes are as long as one another and the array does not
change when they are rotated. -/
def Rotates (arr : Tensor) (seqLen heads headDim : ℕ) : Prop :=
  arr.shape = [1, heads, seqLen, headDim] → heads = seqLen ∧ seqLen = headDim ∧
    ∀ i < seqLen, ∀ j < seqLen, ∀ k < seqLen, arr.get [0, i, k, j] = arr.get [0, j, i, k]

namespace HuggingFaceBackend

section NormalizeShape

variable {arr : Tensor} {seqLen heads headDim : ℕ}

/-- An array with its heads apart comes out as `[n_heads, head_dim, seq_len]`. -/
theorem normalizeShape_apart (h : arr.shape = [1, heads, seqLen, headDim]) :
    ∃ out, normalizeShape arr heads headDim = .ok out ∧ out.shape = [heads, headDim, seqLen] ∧
      ∀ i < heads, ∀ j < headDim, ∀ k < seqLen, out.get [i, j, k] = arr.get [0, i, k, j] := by
  obtain ⟨inner, hinner, hinnerShape, hinnerGet⟩ :=
    Tensor.index_spec (show RowMajor.InShape [1] [0] from .cons (by decide) .nil) h
  obtain ⟨out, hout, hshape, hget⟩ := Tensor.transpose_021 hinnerShape
  refine ⟨out, ?_, hshape, fun i hi j hj k hk => ?_⟩
  · rw [normalizeShape, if_pos (by rw [h]; rfl), hinner]
    exact hout
  · rw [hget i hi j hj k hk, hinnerGet _ (Tensor.inShape_three hi hk hj)]
    rfl

/-- Heads that stand apart get the documented layout only in cubes in which the two transpositions
agree. -/
theorem normalizeShape_apart_iff (h : arr.shape = [1, heads, seqLen, headDim]) :
    (∃ out, normalizeShape arr heads headDim = .ok out ∧ Documented out arr seqLen heads headDim) ↔
      heads = seqLen ∧ seqLen = headDim ∧
        ∀ i < seqLen, ∀ j < seqLen, ∀ k < seqLen, arr.get [0, i, k, j] = arr.get [0, j, i, k] := by
  obtain ⟨out, hout, hshape, hget⟩ := normalizeShape_apart h
  have helement (i j k : ℕ) : layerElement arr headDim i j k = arr.get [0, j, i, k] :=
    if_pos (by rw [h]; rfl)
  rw [hout]
  constructor
  · rintro ⟨_, ⟨⟩, hdoc⟩
    have haxes := hshape.symm.trans hdoc.shape_eq
    simp only [List.cons.injEq, and_true] at haxes
    obtain ⟨rfl, rfl, -⟩ := haxes
    refine ⟨rfl, rfl, fun i hi j hj k hk => ?_⟩
    calc arr.get [0, i, k, j] = out.get [i, j, k] := (hget i hi j hj k hk).symm
      _ = arr.get [0, j, i, k] := (hdoc.get_eq i hi j hj k hk).trans (helement i j k)
  · rintro ⟨rfl, rfl, hrot⟩
    refine ⟨out, rfl, hshape, fun i hi j hj k hk => ?_⟩
    rw [helement, hget i hi j hj k hk, hrot i hi j hj k hk]

/-- An array with its heads side by side comes out as documented. -/
theorem normalizeShape_joined (h : arr.shape = [1, seqLen, heads * headDim]) :
    ∃ out, normalizeShape arr heads headDim = .ok out ∧
      Documented out arr seqLen heads headDim := by
  obtain ⟨inner, hinner, hinnerShape, hinnerGet⟩ :=
    Tensor.index_spec (show RowMajor.InShape [1] [0] from .cons (by decide) .nil) h
  obtain ⟨out, hout, hshape, hget⟩ := Tensor.reshape_split [seqLen] hinnerShape
  refine ⟨out, ?_, hshape, fun s hs j hj d hd => ?_⟩
  · rw [normalizeShape, if_neg (by simp [h]), if_pos (by simp [h]), hinner, h]
    exact hout
  · have hlast : j * headDim + d < heads * headDim := by
      calc j * headDim + d < (j + 1) * headDim := by rw [Nat.add_mul]; omega
        _ ≤ heads * headDim := Nat.mul_le_mul_right _ hj
    rw [layerElement, if_neg (by simp [h])]
    calc out.get [s, j, d] = inner.get [s, j * headDim + d] := hget [s] rfl j d
      _ = arr.get [0, s, j * headDim + d] := hinnerGet _ (.cons hs (.cons hlast .nil))

/-- A layer of either layout is normalized as documented if and only if its heads are side by side
or it does not matter that the axes are in another order. -/
theorem normalizeShape_iff (h : IsLayer arr seqLen heads headDim) :
    (∃ out, normalizeShape arr heads headDim = .ok out ∧ Documented out arr seqLen heads headDim) ↔
      Rotates arr seqLen heads headDim := by
  by_cases hapart : arr.shape = [1, heads, seqLen, headDim]
  · rw [normalizeShape_apart_iff hapart]
    exact ⟨fun hrot _ => hrot, fun hrot => hrot hapart⟩
  · have hjoined := h.resolve_left hapart
    exact ⟨fun _ heq => absurd heq hapart, fun _ => normalizeShape_joined hjoined⟩

/-- Every layer is given some shape. -/
theorem normalizeShape_returns (h : IsLayer arr seqLen heads headDim) :
    ∃ out, normalizeShape arr heads headDim = .ok out := by
  rcases h with hapart | hjoined
  · obtain ⟨out, hout, -⟩ := normalizeShape_apart hapart
    exact ⟨out, hout⟩
  · obtain ⟨out, hout, -⟩ := normalizeShape_joined hjoined
    exact ⟨out, hout⟩

/-- Normalizing is one array at a time. -/
theorem mapM_normalizeShape {α : Type} (array : α → Tensor) {layers : List α}
    (h : ∀ x ∈ layers, IsLayer (array x) seqLen heads headDim) :
    ∃ outs, layers.mapM (fun x => normalizeShape (array x) heads headDim) = .ok outs ∧
      outs.length = layers.length ∧
      (List.Forall₂ (fun x out => Documented out (array x) seqLen heads headDim) layers outs ↔
        ∀ x ∈ layers, Rotates (array x) seqLen heads headDim) := by
  obtain ⟨outs, houts, hall⟩ := Effect.except_mapM_forall₂
    (R := fun x out => Documented out (array x) seqLen heads headDim ↔
      Rotates (array x) seqLen heads headDim) fun x hx => by
    obtain ⟨out, hout⟩ := normalizeShape_returns (h x hx)
    refine ⟨out, hout, ?_⟩
    rw [← normalizeShape_iff (h x hx), hout]
    exact ⟨fun hdoc => ⟨out, rfl, hdoc⟩, by rintro ⟨_, ⟨⟩, hdoc⟩; exact hdoc⟩
  refine ⟨outs, houts, hall.length_eq.symm, ?_⟩
  clear houts h
  induction hall with
  | nil => simp
  | cons hx _ ih => rw [List.forall₂_cons, hx, ih, List.forall_mem_cons]

end NormalizeShape

section Encode

variable [Numpy ℚ]

/-- The cache of a prompt has the layers of the model in the layout that it documents, and the
numbers that it gives of them are the model's. -/
structure DocumentedCache (layers : List (Tensor × Tensor)) (cache : KVCache)
    (seqLen heads headDim : ℕ) : Prop where
  keys : List.Forall₂ (fun kv out =>
    Documented out (kv.1.map Numpy.float32) seqLen heads headDim) layers cache.keys
  values : List.Forall₂ (fun kv out =>
    Documented out (kv.2.map Numpy.float32) seqLen heads headDim) layers cache.values
  seqLen_eq : cache.seqLen = seqLen
  nHeads_eq : cache.nHeads = heads
  headDim_eq : cache.headDim = headDim

/-- `encode` of a model that returns what it should returns the normalized layers. -/
theorem encode_eq {b : HuggingFaceBackend} {prompt : String} {past : PastKeyValues}
    {layers : List (Tensor × Tensor)} {keys values : List Tensor}
    (hpast : b.forward (b.inputIds prompt) = some past)
    (hlayers : (List.range b.numHiddenLayers).mapM past.layer = .ok layers)
    (hids : b.inputIds prompt ≠ [])
    (hkeys : layers.mapM (fun kv =>
      normalizeShape (kv.1.map Numpy.float32) b.numAttentionHeads b.headDim) = .ok keys)
    (hvalues : layers.mapM (fun kv =>
      normalizeShape (kv.2.map Numpy.float32) b.numAttentionHeads b.headDim) = .ok values)
    (hlen : keys.length = values.length) :
    ∃ cache, b.encode prompt = .ok cache ∧ cache.keys = keys ∧ cache.values = values := by
  have hlast := List.getLast?_eq_some_getLast hids
  simp only [encode, hpast, hlayers, bind, Except.bind, hkeys, hvalues, hlast]
  rw [KVCache.create, dif_pos hlen]
  exact ⟨_, rfl, rfl, rfl⟩

/-- A cache whose first layer is laid out as documented gives the numbers of its axes. -/
theorem axes_of_documented {cache : KVCache} {layers : List (Tensor × Tensor)}
    {seqLen heads headDim : ℕ} (hne : layers ≠ [])
    (hkeys : List.Forall₂ (fun kv out =>
      Documented out (kv.1.map Numpy.float32) seqLen heads headDim) layers cache.keys) :
    cache.seqLen = seqLen ∧ cache.nHeads = heads ∧ cache.headDim = headDim := by
  rw [KVCache.seqLen, KVCache.nHeads, KVCache.headDim]
  generalize cache.keys = keys at hkeys
  cases hkeys with
  | nil => exact absurd rfl hne
  | cons hdoc _ => simp [hdoc.shape_eq]

/-- A cache has the documented layout if all of its layers have it. -/
theorem encode_documented_iff {b : HuggingFaceBackend} {prompt : String} {past : PastKeyValues}
    {layers : List (Tensor × Tensor)} {seqLen : ℕ}
    (hpast : b.forward (b.inputIds prompt) = some past)
    (hlayers : (List.range b.numHiddenLayers).mapM past.layer = .ok layers)
    (hsome : 0 < b.numHiddenLayers) (hlen : (b.inputIds prompt).length = seqLen)
    (hseqLen : 0 < seqLen)
    (hshape : ∀ kv ∈ layers, IsLayer kv.1 seqLen b.numAttentionHeads b.headDim ∧
      IsLayer kv.2 seqLen b.numAttentionHeads b.headDim) :
    ∃ cache, b.encode prompt = .ok cache ∧
      (DocumentedCache layers cache seqLen b.numAttentionHeads b.headDim ↔ ∀ kv ∈ layers,
        Rotates (kv.1.map Numpy.float32) seqLen b.numAttentionHeads b.headDim ∧
          Rotates (kv.2.map Numpy.float32) seqLen b.numAttentionHeads b.headDim) := by
  obtain ⟨keys, hkeys, hkeysLen, hkeysIff⟩ :=
    mapM_normalizeShape (fun kv : Tensor × Tensor => kv.1.map Numpy.float32)
      fun kv hkv => (hshape kv hkv).1
  obtain ⟨values, hvalues, hvaluesLen, hvaluesIff⟩ :=
    mapM_normalizeShape (fun kv : Tensor × Tensor => kv.2.map Numpy.float32)
      fun kv hkv => (hshape kv hkv).2
  have hids : b.inputIds prompt ≠ [] := List.ne_nil_of_length_pos (hlen ▸ hseqLen)
  obtain ⟨cache, hcache, rfl, rfl⟩ := encode_eq hpast hlayers hids hkeys hvalues
    (hkeysLen.trans hvaluesLen.symm)
  -- The lengths of the axes are read off the first layer, so there must be one.
  have hne : layers ≠ [] := by
    have hcount := (Effect.except_mapM_eq_ok.mp hlayers).length_eq
    rw [List.length_range] at hcount
    exact List.ne_nil_of_length_pos (hcount ▸ hsome)
  refine ⟨cache, hcache, fun hdoc kv hkv => ?_, fun hrot => ?_⟩
  · exact ⟨hkeysIff.mp hdoc.keys kv hkv, hvaluesIff.mp hdoc.values kv hkv⟩
  · have hkeysDoc := hkeysIff.mpr fun kv hkv => (hrot kv hkv).1
    obtain ⟨hseq, hheads, hdim⟩ := axes_of_documented hne hkeysDoc
    exact ⟨hkeysDoc, hvaluesIff.mpr fun kv hkv => (hrot kv hkv).2, hseq, hheads, hdim⟩

/-- With its heads apart, the axes of a layer come out as heads, dimensions and tokens, and so does
every number that the cache gives of them. Only an array that may be rotated is as documented. -/
theorem layout_iff :
    (∀ (arr : Tensor) (seqLen heads headDim : ℕ), IsLayer arr seqLen heads headDim →
      ((∃ out, normalizeShape arr heads headDim = .ok out ∧
          Documented out arr seqLen heads headDim) ↔ Rotates arr seqLen heads headDim)) ∧
    ∀ (b : HuggingFaceBackend) (prompt : String) (past : PastKeyValues)
      (layers : List (Tensor × Tensor)) (seqLen : ℕ),
      b.forward (b.inputIds prompt) = some past →
      (List.range b.numHiddenLayers).mapM past.layer = .ok layers →
      0 < b.numHiddenLayers → (b.inputIds prompt).length = seqLen → 0 < seqLen →
      (∀ kv ∈ layers, IsLayer kv.1 seqLen b.numAttentionHeads b.headDim ∧
        IsLayer kv.2 seqLen b.numAttentionHeads b.headDim) →
      ∃ cache, b.encode prompt = .ok cache ∧
        (DocumentedCache layers cache seqLen b.numAttentionHeads b.headDim ↔ ∀ kv ∈ layers,
          Rotates (kv.1.map Numpy.float32) seqLen b.numAttentionHeads b.headDim ∧
            Rotates (kv.2.map Numpy.float32) seqLen b.numAttentionHeads b.headDim) := by
  refine ⟨fun arr seqLen heads headDim h => normalizeShape_iff h, ?_⟩
  intro b prompt past layers seqLen hpast hlayers hsome hlen hseqLen hshape
  exact encode_documented_iff hpast hlayers hsome hlen hseqLen hshape

end Encode

/-- A model of one layer with two heads of two dimensions, which returns zeros for two tokens. -/
def square : HuggingFaceBackend where
  modelId := "square"
  numHiddenLayers := 1
  numAttentionHeads := 2
  hiddenSize := 4
  inputIds _ := [1, 2]
  forward _ := some (.legacy [(.zeros [1, 2, 2, 2], .zeros [1, 2, 2, 2])])

/-- A model whose layers are cubes of zeros. -/
theorem layout_iff_square :
    ∃ cache, @encode Numpy.rat square "p" = .ok cache ∧
      @DocumentedCache Numpy.rat [(.zeros [1, 2, 2, 2], .zeros [1, 2, 2, 2])] cache 2 2 2 := by
  obtain ⟨cache, hcache, hiff⟩ := (@layout_iff Numpy.rat).2 square "p"
    (.legacy [(.zeros [1, 2, 2, 2], .zeros [1, 2, 2, 2])])
    [(.zeros [1, 2, 2, 2], .zeros [1, 2, 2, 2])] 2 rfl rfl (by decide) rfl (by decide)
    (fun kv hkv => by cases List.mem_singleton.mp hkv; exact ⟨.inl rfl, .inl rfl⟩)
  refine ⟨cache, hcache, hiff.mpr fun kv hkv => ?_⟩
  cases List.mem_singleton.mp hkv
  exact ⟨fun _ => by decide, fun _ => by decide⟩

/-- One head of three dimensions over two tokens comes out as three by two. -/
theorem layout_wrong :
    ¬ ∀ (arr : Tensor), ∀ seqLen ≥ 1, ∀ heads ≥ 1, ∀ headDim ≥ 1,
      IsLayer arr seqLen heads headDim → ∃ out, normalizeShape arr heads headDim = .ok out ∧
        Documented out arr seqLen heads headDim := by
  intro h
  have hlayer : IsLayer (.zeros [1, 1, 2, 3]) 2 1 3 := .inl rfl
  have hout := h _ 2 (by decide) 1 (by decide) 3 (by decide) hlayer
  have hrot := (normalizeShape_iff hlayer).mp hout rfl
  exact absurd hrot.1 (by decide)

end HuggingFaceBackend

end Chen
