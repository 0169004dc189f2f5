import Chen.Core.Tensor

/-!
# Layers added and dropped

What the backends that transfer a cache do once the widths agree: a model with fewer layers is given
the first ones, and one with more is given zeros in the place of those that are missing.
-/

namespace Chen.KVCache

/-- The layer count adjustment. The metadata of the result is what distinguishes the backends. -/
def fitLayers (cache : KVCache) (nLayers : ℕ) (metadata : List (String × String)) :
    Except Exn KVCache :=
  if cache.sourceLayerCount = nLayers then .ok cache
  else if nLayers < cache.sourceLayerCount then
    create (cache.keys.take nLayers) (cache.values.take nLayers) cache.sourceModel nLayers
      cache.sourceHiddenSize cache.sourceNHeads cache.sourceText cache.lastTokenId cache.position
      metadata
  else
    match cache.keys, cache.values with
    | key :: _, value :: _ =>
      let missing := nLayers - cache.sourceLayerCount
      create (cache.keys ++ List.replicate missing key.zerosLike)
        (cache.values ++ List.replicate missing value.zerosLike) cache.sourceModel nLayers
        cache.sourceHiddenSize cache.sourceNHeads cache.sourceText cache.lastTokenId cache.position
        metadata
    | _, _ => .error (.other "IndexError" "list index out of range")

/-- A list of layers cut to a length, or filled up with zeros of the shape of its first. -/
def fit (layers : List Tensor) (nLayers : ℕ) : List Tensor :=
  layers.take nLayers ++
    List.replicate (nLayers - layers.length) ((layers.head?.map Tensor.zerosLike).getD (.zeros []))

/-- The layers are as many as were asked for. -/
theorem length_fit (layers : List Tensor) (nLayers : ℕ) :
    (fit layers nLayers).length = nLayers := by
  rw [fit, List.length_append, List.length_take, List.length_replicate]
  omega

/-- As many layers as there are stay as they are. -/
theorem fit_length (layers : List Tensor) : fit layers layers.length = layers := by
  rw [fit, List.take_length, Nat.sub_self]
  exact List.append_nil _

/-- Fewer layers are the first of them. -/
theorem fit_of_le {layers : List Tensor} {nLayers : ℕ} (h : nLayers ≤ layers.length) :
    fit layers nLayers = layers.take nLayers := by
  rw [fit, Nat.sub_eq_zero_of_le h]
  exact List.append_nil _

/-- More layers have zeros behind them, of the shape of the first. -/
theorem fit_cons {layers rest : List Tensor} {first : Tensor} (hfirst : layers = first :: rest)
    {nLayers : ℕ} (h : layers.length ≤ nLayers) :
    fit layers nLayers = layers ++ List.replicate (nLayers - layers.length) first.zerosLike := by
  rw [fit, List.take_of_length_le h, hfirst]
  rfl

/-- Layers that were added are dropped again. -/
theorem fit_fit {layers : List Tensor} {nLayers : ℕ} (h : layers.length ≤ nLayers) :
    fit (fit layers nLayers) layers.length = layers := by
  rw [fit_of_le (by rw [length_fit]; exact h), fit, List.take_of_length_le h, List.take_left]

/-- The fields that are not about layers are those of the source. -/
structure SameSource (cache fitted : KVCache) : Prop where
  sourceModel_eq : fitted.sourceModel = cache.sourceModel
  sourceHiddenSize_eq : fitted.sourceHiddenSize = cache.sourceHiddenSize
  sourceNHeads_eq : fitted.sourceNHeads = cache.sourceNHeads
  sourceText_eq : fitted.sourceText = cache.sourceText
  lastTokenId_eq : fitted.lastTokenId = cache.lastTokenId
  position_eq : fitted.position = cache.position

/-- What `fitLayers` makes of a cache. -/
structure Fitted (cache : KVCache) (nLayers : ℕ) (fitted : KVCache) : Prop extends
    SameSource cache fitted where
  sourceLayerCount_eq : fitted.sourceLayerCount = nLayers
  keys_eq : fitted.keys = fit cache.keys nLayers
  values_eq : fitted.values = fit cache.values nLayers

/-- A cache fits its own number of layers. -/
theorem fitted_self (cache : KVCache) : Fitted cache cache.sourceLayerCount cache := by
  refine ⟨⟨rfl, rfl, rfl, rfl, rfl, rfl⟩, rfl, ?_, ?_⟩
  · rw [cache.count_eq, fit_length]
  · rw [cache.count_eq, cache.layers_eq, fit_length]

/-- The constructor takes the fitted layers and finds the count that it is told. -/
theorem create_fit (cache : KVCache) (nLayers : ℕ) (metadata : List (String × String)) :
    ∃ fitted, create (fit cache.keys nLayers) (fit cache.values nLayers) cache.sourceModel nLayers
        cache.sourceHiddenSize cache.sourceNHeads cache.sourceText cache.lastTokenId cache.position
        metadata = .ok fitted ∧ Fitted cache nLayers fitted := by
  rw [create, dif_pos (by rw [length_fit, length_fit])]
  exact ⟨_, rfl, ⟨rfl, rfl, rfl, rfl, rfl, rfl⟩, length_fit _ _, rfl, rfl⟩

/-- A cache that has a layer is fitted to any number. -/
theorem fitLayers_spec {cache : KVCache} (hlayers : cache.keys ≠ []) (nLayers : ℕ)
    (metadata : List (String × String)) :
    ∃ fitted, cache.fitLayers nLayers metadata = .ok fitted ∧ Fitted cache nLayers fitted := by
  have hcount := cache.count_eq
  have hvalues := cache.layers_eq
  rw [fitLayers]
  split
  case isTrue heq =>
    subst heq
    exact ⟨cache, rfl, fitted_self cache⟩
  case isFalse hne =>
    split
    case isTrue hlt =>
      -- too many layers: the first ones
      rw [← fit_of_le (by omega), ← fit_of_le (by omega)]
      exact create_fit cache nLayers metadata
    case isFalse hge =>
      -- too few: zeros of the shape of the first layer behind them
      obtain ⟨key, keys, hkeys⟩ := List.exists_cons_of_ne_nil hlayers
      obtain ⟨value, values, hvals⟩ := List.exists_cons_of_length_eq_add_one
        (show cache.values.length = keys.length + 1 by rw [← hvalues, hkeys, List.length_cons])
      have hfitKeys : fit cache.keys nLayers = _ := fit_cons hkeys (by omega)
      have hfitValues : fit cache.values nLayers = _ := fit_cons hvals (by omega)
      rw [← hcount] at hfitKeys
      rw [← hvalues, ← hcount] at hfitValues
      have hcreate := create_fit cache nLayers metadata
      rw [hfitKeys, hfitValues] at hcreate
      split
      case h_1 key' keys' value' values' hkeys' hvals' =>
        cases hkeys.symm.trans hkeys'
        cases hvals.symm.trans hvals'
        exact hcreate
      case h_2 hnone => exact absurd hvals (hnone _ _ _ _ hkeys)

/-- A cache that has the layers already is handed on as it is. -/
theorem fitLayers_self (cache : KVCache) (metadata : List (String × String)) :
    cache.fitLayers cache.sourceLayerCount metadata = .ok cache := by
  rw [fitLayers, if_pos rfl]

end Chen.KVCache
