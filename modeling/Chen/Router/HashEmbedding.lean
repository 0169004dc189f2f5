import Chen.Library.LastWrite
import Chen.Python.Bytes
import Chen.Router.Cosine
import Mathlib.Analysis.Complex.Exponential
import Mathlib.Analysis.Real.Sqrt

/-!
# Two hash embeddings

The memory and the cosine router embed a text by the same loop over eight-byte chunks. The memory's
loop goes by the number of bytes, the router's by the number of characters.
-/

namespace Chen

open PyFloat (lit)

section Definitions

variable {R : Type} [Hashlib] [PyFloat R] [Numpy R]

/-- `_hash_embed`, of the memory. -/
def hashEmbed (text : String) (dim : ℤ := 64) : Except Exn (List R) :=
  let encoded := Str.utf8 text
  if dim < 0 then .error (.value "negative dimensions are not allowed")
  else if dim = 0 then .error (.other "ZeroDivisionError" "integer modulo by zero")
  else
    -- `range(0, max(len(encoded), 1), 8)`; the router has the length of the text here
    let out := (List.range ((max encoded.length 1 + 7) / 8)).foldl (fun out k =>
      let chunk := (encoded.drop (8 * k)).take 8
      let h := Hashlib.blake2b [] chunk 4
      out.set (k % dim.toNat) (Numpy.float32 (lit ((intFromLittle h : ℚ) / 0xFFFFFFFF))))
      (List.replicate dim.toNat (Numpy.float32 (lit 0)))
    let norm := PyFloat.sqrt (Numpy.sumSq out)
    .ok (if lit 0 < norm then Numpy.divide out norm else out)

end Definitions

/-- The number of steps of `range(0, max(length, 1), 8)`. -/
def blocks (length : ℕ) : ℕ := (max length 1 + 7) / 8

/-- The bytes that step `k` hashes. -/
def chunk (text : String) (k : ℕ) : Bytes := ((Str.utf8 text).drop (8 * k)).take 8

/-- What was hashed for position `j`, of `d`, when `n` steps are over. -/
def lastChunk (text : String) (d n j : ℕ) : Option Bytes :=
  (LastWrite.last (· % d) (List.range n) j).map (chunk text)

section Written

variable {R : Type} [Hashlib] [PyFloat R] [Numpy R]

/-- The number that stands for a chunk. -/
def chunkValue (data : Bytes) : R :=
  Numpy.float32 (lit ((intFromLittle (Hashlib.blake2b [] data 4) : ℚ) / 0xFFFFFFFF))

/-- The vector after `n` steps. -/
def written (text : String) (d n : ℕ) : List R :=
  (List.range n).foldl (fun out k => out.set (k % d) (chunkValue (chunk text k)))
    (List.replicate d (Numpy.float32 (lit 0)))

/-- The embedding is the normalised vector of the last chunks. -/
theorem hashEmbed_eq (text : String) {d : ℕ} (hd : 1 ≤ d) :
    hashEmbed (R := R) text d =
      .ok (CosineRouter.normalize (written text d (blocks (Str.utf8 text).length))) := by
  rw [hashEmbed, if_neg (by omega), if_neg (by omega)]
  rfl

/-- So is the router's, which stops after as many bytes as the text has characters. -/
theorem CosineRouter.embed_eq {router : CosineRouter R} (hfn : router.embedFn = none) {d : ℕ}
    (hdim : router.embedDim = d) (text : String) (hd : 1 ≤ d) :
    router.embed text = .ok (normalize (written text d (blocks text.length))) := by
  rw [embed, hfn, hdim]
  show normalize <$> hashEmbed (R := R) d text = _
  rw [hashEmbed, if_neg (by omega), if_neg (by omega)]
  rfl

/-- A position holds the number of the last chunk hashed for it. -/
theorem getElem?_written (text : String) {d n j : ℕ} (hj : j < d) :
    (written (R := R) text d n)[j]? =
      some ((lastChunk text d n j).elim (Numpy.float32 (lit 0)) chunkValue) := by
  rw [written, LastWrite.getElem?_foldl_set _ _ _ _ (by simpa using hj), lastChunk]
  cases LastWrite.last (· % d) (List.range n) j with
  | some k => rfl
  | none => simp [hj]

/-- The vector depends on the last chunk of each cell alone. -/
theorem written_congr {text : String} {d n m : ℕ}
    (h : ∀ j < d, lastChunk text d n j = lastChunk text d m j) :
    written (R := R) text d n = written text d m := by
  apply LastWrite.foldl_set_congr
  intro j hj
  rw [List.length_replicate] at hj
  have hvalue := congrArg (Option.map (chunkValue (R := R))) (h j hj)
  simpa [lastChunk, Option.map_map, Function.comp_def] using hvalue

end Written

/-- The number of characters and of bytes take the same steps if and only if the loop over the
characters comes to the last byte. -/
theorem blocks_eq_iff (text : String) :
    blocks text.length = blocks (Str.utf8 text).length ↔
      ∀ k, 8 * k < (Str.utf8 text).length →
        k < blocks text.length ∧ k < blocks (Str.utf8 text).length := by
  have hle := Str.length_le_utf8 text
  unfold blocks
  constructor
  · intro h k hk
    omega
  · intro h
    by_contra hne
    have := h ((max (Str.utf8 text).length 1 + 7) / 8 - 1) (by omega)
    omega

/-! ## Exact arithmetic -/

/-- The arithmetic of the real numbers. -/
noncomputable instance PyFloat.real : PyFloat ℝ where
  lit q := q
  exp x := .ok (Real.exp x)
  sqrt := Real.sqrt

/-- Real numbers stored without a loss. -/
noncomputable instance Numpy.real : Numpy ℝ where
  float32 x := x
  sumSq v := (v.map (· ^ 2)).sum
  divide v norm := v.map (· / norm)
  mean vs :=
    match vs with
    | [] => []
    | v :: _ => (List.range v.length).map fun i => (vs.map (·.getD i 0)).sum / vs.length
  dotSame v w := (List.zipWith (· * ·) v w).sum

/-- The digest that marks one chunk. -/
@[reducible] def Hashlib.marking (marked : Bytes) : Hashlib where
  blake2b _ data digestSize := List.replicate digestSize (if data = marked then 255 else 0)
  sha256 _ := List.replicate 32 0

/-- A digest that tells one text from all others. -/
theorem intFromLittle_marking (marked data : Bytes) :
    intFromLittle ((Hashlib.marking marked).blake2b [] data 4) =
      if data = marked then 0xFFFFFFFF else 0 := by
  show intFromLittle (List.replicate 4 _) = _
  by_cases h : data = marked <;> simp [h, intFromLittle, List.replicate]

/-- The value of a chunk under this digest. -/
theorem chunkValue_marking (marked data : Bytes) :
    @chunkValue ℝ (Hashlib.marking marked) _ _ data = if data = marked then 1 else 0 := by
  unfold chunkValue
  rw [intFromLittle_marking]
  by_cases h : data = marked <;> simp [h, Numpy.float32, lit]

/-- Normalizing keeps the positions that are zero, and no others become zero. -/
theorem getElem?_normalize_eq_zero_iff (v : List ℝ) (j : ℕ) :
    (CosineRouter.normalize v)[j]? = some 0 ↔ v[j]? = some 0 := by
  rw [CosineRouter.normalize]
  split
  · rename_i hnorm
    have hne : PyFloat.sqrt (Numpy.sumSq v) ≠ 0 := by
      have hpos : (0 : ℝ) < PyFloat.sqrt (Numpy.sumSq v) := by simpa [lit] using hnorm
      exact hpos.ne'
    simp [Numpy.divide, hne]
  · rfl

/-- Under the marking digest, a position is zero unless the marked chunk was hashed for it last. -/
theorem getElem?_written_marking {text : String} {d n j : ℕ} (hj : j < d) (marked : Bytes) :
    (@written ℝ (Hashlib.marking marked) _ _ text d n)[j]? = some 0 ↔
      lastChunk text d n j ≠ some marked := by
  rw [@getElem?_written ℝ (Hashlib.marking marked) _ _ text d n j hj]
  cases lastChunk text d n j with
  | none => simp [Numpy.float32, lit]
  | some data =>
    rw [Option.elim_some, chunkValue_marking]
    by_cases h : data = marked <;> simp [h]

/-- The vectors after `n` and after `m` steps are the same for every digest if and only if each
position was last written for the same chunk. -/
theorem normalize_written_eq_iff {text : String} {d n m : ℕ} :
    (∀ _hash : Hashlib, CosineRouter.normalize (written (R := ℝ) text d n) =
        CosineRouter.normalize (written text d m)) ↔
      ∀ j < d, lastChunk text d n j = lastChunk text d m j := by
  constructor
  · intro h j hj
    apply Option.ext
    intro marked
    -- The digest that marks one chunk leaves a zero wherever another chunk was hashed last.
    have hzero := congrArg (fun v => v[j]? = some 0) (h (Hashlib.marking marked))
    simp only [getElem?_normalize_eq_zero_iff, getElem?_written_marking hj, eq_iff_iff] at hzero
    exact not_iff_not.mp hzero
  · intro h _
    rw [written_congr h]

/-- The router that `CosineRouter(embed_dim=d)` constructs. -/
noncomputable def CosineRouter.ofDim (d : ℕ) : CosineRouter ℝ :=
  { threshold := lit (1 / 10), embedDim := d }

/-- Both embeddings of the text are the same, whatever the digest. -/
def SameEmbedding (text : String) (d : ℕ) : Prop :=
  ∀ _hash : Hashlib, (CosineRouter.ofDim d).embed text = hashEmbed text d

/-- Every eight-byte chunk of the encoded text is visited by both loops. -/
def VisitedByBoth (text : String) : Prop :=
  ∀ k, 8 * k < (Str.utf8 text).length →
    k < blocks text.length ∧ k < blocks (Str.utf8 text).length

/-- The two vectors are equal for every digest if and only if each cell has one last chunk. -/
theorem sameEmbedding_iff (text : String) {d : ℕ} (hd : 1 ≤ d) :
    SameEmbedding text d ↔ ∀ j < d,
      lastChunk text d (blocks text.length) j =
        lastChunk text d (blocks (Str.utf8 text).length) j := by
  rw [← normalize_written_eq_iff]
  apply forall_congr'
  intro hash
  rw [CosineRouter.embed_eq rfl rfl text hd, hashEmbed_eq text hd, Except.ok.injEq]

/-- The router's loop ends where the characters do. It sees every byte if and only if the bytes
beyond that number begin no further chunk; short of that, the embeddings are the same where the
chunks left out repeat the ones that they would have overwritten. -/
theorem CosineRouter.embed_eq_hashEmbed_iff (text : String) {d : ℕ} (hd : 1 ≤ d) :
    (SameEmbedding text d ∧ VisitedByBoth text ↔
        blocks text.length = blocks (Str.utf8 text).length) ∧
      (SameEmbedding text d ↔ ∀ j < d,
        lastChunk text d (blocks text.length) j =
          lastChunk text d (blocks (Str.utf8 text).length) j) := by
  refine ⟨⟨fun h => (blocks_eq_iff text).mpr h.2, fun h => ?_⟩, sameEmbedding_iff text hd⟩
  refine ⟨(sameEmbedding_iff text hd).mpr fun j _ => ?_, (blocks_eq_iff text).mp h⟩
  rw [h]

/-- An ASCII text has one embedding. -/
theorem CosineRouter.embed_eq_hashEmbed_ascii :
    SameEmbedding "summarise the report" 64 ∧ VisitedByBoth "summarise the report" :=
  (CosineRouter.embed_eq_hashEmbed_iff "summarise the report" (d := 64) (by decide)).1.mpr
    (by decide)

/-- Of five accented letters, which are ten bytes, the router leaves out the last two bytes. -/
theorem CosineRouter.embed_ne_hashEmbed :
    ¬ ∀ text : String, ∀ d ≥ 1, SameEmbedding text d ∧ VisitedByBoth text := by
  intro h
  have hlast := (sameEmbedding_iff "ééééé" (d := 64) (by decide)).mp (h "ééééé" 64 (by decide)).1
    1 (by decide)
  exact absurd hlast (by decide)

end Chen
