import Chen.Backends.HuggingFace
import Chen.Backends.LlamaCpp
import Chen.Backends.VLLM

/-!
# Transfer between models

The three backends that can adapt a cache do so alike, but for the metadata that they keep. Layers
are added and dropped so that what was added is dropped first.
-/

namespace Chen

/-- A backend with a `transfer_cache` that adapts the layers. -/
inductive LatentBackend where
  | huggingFace (b : HuggingFaceBackend)
  | vllm (b : VLLMBackend)
  | llamaCpp (b : LlamaCppBackend)

namespace LatentBackend

/-- The number of layers of the model. -/
def nLayers : LatentBackend → ℕ
  | .huggingFace b => b.numHiddenLayers
  | .vllm b => b.numLayers
  | .llamaCpp b => b.nLayer

/-- The number of heads that a cache must have. -/
def nHeads : LatentBackend → ℕ
  | .huggingFace b => b.numAttentionHeads
  | .vllm b => b.numKvHeads
  | .llamaCpp b => b.nHeadKv

/-- The dimension of a head. -/
def headDim : LatentBackend → ℕ
  | .huggingFace b => b.headDim
  | .vllm b => b.headSize
  | .llamaCpp b => b.headDim

/-- `transfer_cache`. -/
def transferCache : LatentBackend → KVCache → Except Exn KVCache
  | .huggingFace b => b.transferCache
  | .vllm b => b.transferCache
  | .llamaCpp b => b.transferCache

/-- The cache has the heads and the hidden size of the model. -/
def Matches (b : LatentBackend) (cache : KVCache) : Prop :=
  cache.sourceNHeads = b.nHeads ∧ cache.sourceHiddenSize = b.nHeads * b.headDim

variable {b : LatentBackend} {cache : KVCache}

/-- A cache that matches is fitted to the layers of the model. -/
theorem transferCache_of_matches (h : b.Matches cache) :
    ∃ metadata, b.transferCache cache = cache.fitLayers b.nLayers metadata := by
  obtain ⟨hheads, hhidden⟩ := h
  cases b with
  | huggingFace b => exact ⟨[], if_neg fun hor => hor.elim (· hheads) (· hhidden)⟩
  | vllm b => exact ⟨cache.metadata, if_neg fun hor => hor.elim (· hheads) (· hhidden)⟩
  | llamaCpp b =>
    have hmatch : b.mismatched cache = false := by
      simp only [nHeads, headDim] at hheads hhidden
      simp [LlamaCppBackend.mismatched, hheads, hhidden]
    exact ⟨cache.metadata, if_neg (by rw [hmatch]; decide)⟩

/-- Any other cache is refused. -/
theorem transferCache_of_not_matches (h : ¬ b.Matches cache) :
    ∃ message, b.transferCache cache = .error (.incompatibleCache message) := by
  have hor := Decidable.not_and_iff_or_not.mp h
  cases b with
  | huggingFace b => exact ⟨_, if_pos hor⟩
  | vllm b => exact ⟨_, if_pos hor⟩
  | llamaCpp b =>
    have hmismatch : b.mismatched cache = true := by
      simp only [nHeads, headDim] at hor
      simpa [LlamaCppBackend.mismatched] using hor
    exact ⟨_, if_pos hmismatch⟩

/-- What a transfer that succeeds gives. -/
theorem transferCache_returns (hlayers : cache.keys ≠ []) (h : b.Matches cache) :
    ∃ adapted, b.transferCache cache = .ok adapted ∧ KVCache.Fitted cache b.nLayers adapted := by
  obtain ⟨metadata, htransfer⟩ := transferCache_of_matches h
  rw [htransfer]
  exact KVCache.fitLayers_spec hlayers b.nLayers metadata

/-- A model whose layers a cache has returns it as it is. -/
theorem transferCache_self (h : b.Matches cache) (hlayers : cache.sourceLayerCount = b.nLayers) :
    b.transferCache cache = .ok cache := by
  obtain ⟨metadata, htransfer⟩ := transferCache_of_matches h
  rw [htransfer, ← hlayers]
  exact KVCache.fitLayers_self cache metadata

/-- The heads and the width survive a transfer. -/
theorem Matches.of_fitted {n : ℕ} {adapted : KVCache} (hfit : KVCache.Fitted cache n adapted) :
    b.Matches adapted ↔ b.Matches cache := by
  rw [Matches, Matches, hfit.sourceNHeads_eq, hfit.sourceHiddenSize_eq]

/-- Transfer of a cache with layers, by any of the three backends: what is returned, that it is
returned again, that a model with the layers of the source gets them back, and what is raised. -/
theorem transferCache_spec (b : LatentBackend) {cache : KVCache} (hlayers : cache.keys ≠ []) :
    (b.Matches cache → ∃ adapted, b.transferCache cache = .ok adapted ∧
      KVCache.Fitted cache b.nLayers adapted ∧ adapted.keys.length = b.nLayers ∧
      adapted.values.length = b.nLayers ∧ b.transferCache adapted = .ok adapted ∧
      ∀ back : LatentBackend, back.Matches cache → cache.keys.length ≤ b.nLayers →
        back.nLayers = cache.keys.length → ∃ restored, back.transferCache adapted = .ok restored ∧
          restored.keys = cache.keys ∧ restored.values = cache.values) ∧
    (¬ b.Matches cache →
      ∃ message, b.transferCache cache = .error (.incompatibleCache message)) := by
  refine ⟨fun h => ?_, transferCache_of_not_matches⟩
  obtain ⟨adapted, hadapted, hfit⟩ := transferCache_returns hlayers h
  have hcount : adapted.keys.length = b.nLayers := adapted.count_eq ▸ hfit.sourceLayerCount_eq
  refine ⟨adapted, hadapted, hfit, hcount, adapted.layers_eq ▸ hcount, ?_, ?_⟩
  · exact transferCache_self ((Matches.of_fitted hfit).mpr h) hfit.sourceLayerCount_eq
  · intro back hback hle hbackLayers
    have hpos := List.length_pos_of_ne_nil hlayers
    have hne : adapted.keys ≠ [] := List.ne_nil_of_length_pos (by omega)
    obtain ⟨restored, hrestored, hfit'⟩ :=
      transferCache_returns hne ((Matches.of_fitted hfit).mpr hback)
    refine ⟨restored, hrestored, ?_, ?_⟩
    · rw [hfit'.keys_eq, hfit.keys_eq, hbackLayers, KVCache.fit_fit hle]
    · rw [hfit'.values_eq, hfit.values_eq, hbackLayers, cache.layers_eq,
        KVCache.fit_fit (cache.layers_eq ▸ hle)]

/-- A cache of one layer on its way through a vLLM model of three. -/
theorem transferCache_spec_ofText :
    ∃ adapted, (vllm ⟨"m", 1, 1, 3⟩).transferCache (.ofText "p") = .ok adapted ∧
      adapted.keys.length = 3 ∧ ∃ restored,
        (llamaCpp ⟨"n", 1, 1, 1, none, by decide⟩).transferCache adapted = .ok restored ∧
          restored.keys = (KVCache.ofText "p").keys := by
  obtain ⟨adapted, hadapted, -, hcount, -, -, hback⟩ :=
    (transferCache_spec (vllm ⟨"m", 1, 1, 3⟩)
      (show (KVCache.ofText "p").keys ≠ [] by decide)).1 ⟨rfl, rfl⟩
  obtain ⟨restored, hrestored, hkeys, -⟩ := hback (llamaCpp ⟨"n", 1, 1, 1, none, by decide⟩)
    ⟨rfl, rfl⟩ (by decide) rfl
  exact ⟨adapted, hadapted, hcount, restored, hrestored, hkeys⟩

end LatentBackend

end Chen
