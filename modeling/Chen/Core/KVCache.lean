import Chen.Python.Exception
import Mathlib.Data.Rat.Defs
import Mathlib.Algebra.BigOperators.Group.List.Basic

/-!
# KV-caches

The per-layer keys and values of a transformer's attention cache, with the provenance that a
receiving backend reads. Array elements are exact rationals.
-/

namespace Chen

/-- A numpy array in row-major order. -/
structure Tensor where
  shape : List ℕ
  data : List ℚ
  size_eq : data.length = shape.prod
deriving DecidableEq

/-- Per-layer key/value tensors with provenance. `__post_init__` refuses unequal layer counts and
overwrites a wrong `source_layer_count`, so every cache carries the two equalities. -/
structure KVCache where
  keys : List Tensor
  values : List Tensor
  sourceModel : String
  sourceLayerCount : ℕ
  sourceHiddenSize : ℕ
  sourceNHeads : ℕ
  sourceText : String
  lastTokenId : ℕ
  position : ℤ
  metadata : List (String × String)
  layers_eq : keys.length = values.length
  count_eq : sourceLayerCount = keys.length
deriving DecidableEq

namespace KVCache

/-- `KVCache(...)`: the constructor call with its `__post_init__`. -/
def create (keys values : List Tensor) (sourceModel : String)
    (sourceLayerCount sourceHiddenSize sourceNHeads : ℕ) (sourceText : String)
    (lastTokenId : ℕ) (position : ℤ) (metadata : List (String × String)) : Except Exn KVCache :=
  if h : keys.length = values.length then
    .ok
      { keys, values, sourceModel, sourceHiddenSize, sourceNHeads, sourceText, lastTokenId
        position
        sourceLayerCount := keys.length
        metadata :=
          if sourceLayerCount = keys.length then metadata
          else metadata.filter (·.1 ≠ "layer_count_mismatch") ++
            [("layer_count_mismatch",
              "declared=" ++ toString sourceLayerCount ++ ", actual=" ++ toString keys.length)]
        layers_eq := h
        count_eq := rfl }
  else
    .error (.value ("KVCache: keys and values have different layer counts (" ++
      toString keys.length ++ " vs " ++ toString values.length ++ ")."))

/-- The cache of a text, with one layer of one zero: what is left when the tensors do not matter. -/
def ofText (text : String) : KVCache where
  keys := [⟨[1, 1, 1], [0], rfl⟩]
  values := [⟨[1, 1, 1], [0], rfl⟩]
  sourceModel := ""
  sourceLayerCount := 1
  sourceHiddenSize := 1
  sourceNHeads := 1
  sourceText := text
  lastTokenId := 0
  position := 0
  metadata := []
  layers_eq := rfl
  count_eq := rfl

/-- `seq_len`: the first dimension of the first layer. -/
def seqLen (c : KVCache) : ℕ :=
  match c.keys with
  | [] => 0
  | k :: _ => k.shape.getD 0 0

/-- `n_heads`: the second dimension of the first layer. -/
def nHeads (c : KVCache) : ℕ :=
  match c.keys with
  | [] => 0
  | k :: _ => k.shape.getD 1 0

/-- `head_dim`: the third dimension of the first layer. -/
def headDim (c : KVCache) : ℕ :=
  match c.keys with
  | [] => 0
  | k :: _ => k.shape.getD 2 0

end KVCache

end Chen
