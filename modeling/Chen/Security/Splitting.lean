import Chen.Security.Transit
import Mathlib.Algebra.Order.Floor.Div

/-!
# Splitting data into blocks

Three loops cut data into chunks and encrypt them: one that collects the blocks of a stream, one
that yields them, and one that makes blocks without positions.
-/

namespace Chen

open Effect

section Loops

variable [Cryptography]

/-- `encrypt_stream`. -/
def Encryptor.encryptStream (encryptor : Encryptor) (data sessionId : Bytes)
    (blockSize : Option ℤ := none) : EStateM Exn Entropy (List EncryptedBlock) :=
  let bs := CrypticStream.effectiveBlockSize encryptor blockSize
  (rangeStep data.length bs).mapM fun i =>
    encryptor.encrypt (CrypticStream.chunkAt data bs i) sessionId

namespace CrypticStream

/-- The loop of `stream_iter` over the rest of its range. The last block ends it. -/
def yieldBlocks (data : Bytes) (encryptor : Encryptor) (sessionId : Bytes) (bs : ℤ) :
    List ℕ → EStateM Exn Entropy (List StreamBlock)
  | [] => pure []
  | i :: rest => do
    let chunk := if i < data.length then chunkAt data bs i else []
    let block ← encryptor.encrypt chunk sessionId
    let isLast : Bool := data.length ≤ i + bs ∨ i = 0 ∧ data.length = 0
    if isLast then pure [⟨i / bs.toNat, block, isLast⟩]
    else do
      let blocks ← yieldBlocks data encryptor sessionId bs rest
      pure (⟨i / bs.toNat, block, isLast⟩ :: blocks)

/-- `list(stream_iter(...))`. -/
def streamIter (data : Bytes) (encryptor : Encryptor) (sessionId : Bytes)
    (blockSize : Option ℤ := none) : EStateM Exn Entropy (List StreamBlock) :=
  let bs := effectiveBlockSize encryptor blockSize
  yieldBlocks data encryptor sessionId bs (rangeStep (max data.length 1) bs)

end CrypticStream

end Loops

/-! ## The positions of the chunks -/

/-- The chunks begin at the multiples of the block size. -/
theorem rangeStep_eq (stop : ℕ) {step : ℤ} (h : 0 < step) :
    rangeStep stop step = (List.range (stop ⌈/⌉ step.toNat)).map (· * step.toNat) := by
  rw [rangeStep, if_pos h, Nat.ceilDiv_eq_add_pred_div]

/-- There are as many blocks as begin within the data. -/
theorem lt_ceilDiv_iff {n b k : ℕ} (h : 0 < b) : k < n ⌈/⌉ b ↔ k * b < n := by
  rw [Nat.ceilDiv_eq_add_pred_div, ← Nat.add_one_le_iff, Nat.le_div_iff_mul_le h, Nat.add_mul,
    Nat.one_mul]
  omega

/-- The range has one element in front of each position that is reached. -/
theorem rangeStep_split {stop i : ℕ} {step : ℤ} {pre rest : List ℕ} (h : 0 < step)
    (hsplit : rangeStep stop step = pre ++ i :: rest) :
    i = pre.length * step.toNat ∧ i < stop ∧ (rest = [] ↔ stop ≤ i + step) := by
  have hpos : 0 < step.toNat := by omega
  rw [rangeStep_eq stop h] at hsplit
  have hlen := congrArg List.length hsplit
  rw [List.length_map, List.length_range, List.length_append, List.length_cons] at hlen
  have hi := congrArg (·[pre.length]?) hsplit
  simp only [List.getElem?_map, List.getElem?_append_right le_rfl, Nat.sub_self,
    List.getElem?_cons_zero] at hi
  rw [List.getElem?_range (by omega), Option.map_some, Option.some.injEq] at hi
  have hreached : i < stop := by
    rw [← hi]
    exact (lt_ceilDiv_iff hpos).mp (by omega)
  refine ⟨hi.symm, hreached, ?_⟩
  have hnext : pre.length + 1 < stop ⌈/⌉ step.toNat ↔ i + step.toNat < stop := by
    rw [lt_ceilDiv_iff hpos, Nat.add_mul, Nat.one_mul, hi]
  rw [← List.length_eq_zero_iff]
  omega

namespace CrypticStream

/-- The block size that is used is positive. -/
theorem effectiveBlockSize_pos (encryptor : Encryptor) {blockSize : Option ℤ}
    (h : ∀ size, blockSize = some size → 0 ≤ size) : 0 < effectiveBlockSize encryptor blockSize := by
  have hconfig := encryptor.config.le_blockSize
  cases blockSize with
  | none =>
    rw [effectiveBlockSize]
    omega
  | some size =>
    have hsize := h size rfl
    rw [effectiveBlockSize]
    split <;> omega

/-! ## The three loops -/

section Agreement

variable [Cryptography] {data : Bytes} {encryptor : Encryptor} {sessionId : Bytes} {bs : ℤ}

/-- The blocks of a stream, one for each position. -/
def sealAt (data : Bytes) (encryptor : Encryptor) (sessionId : Bytes) (bs : ℤ) (i : ℕ) :
    EStateM Exn Entropy StreamBlock := do
  let block ← encryptor.encrypt (chunkAt data bs i) sessionId
  pure ⟨i / bs.toNat, block, data.length ≤ i + bs⟩

/-- As long as only its last position reaches the end of the data, the loop that stops there goes
through its whole range. -/
theorem yieldBlocks_eq_mapM {is : List ℕ} (hne : data ≠ [])
    (h : ∀ pre i rest, is = pre ++ i :: rest →
      i < data.length ∧ (rest = [] ↔ (data.length : ℤ) ≤ i + bs)) :
    yieldBlocks data encryptor sessionId bs is = is.mapM (sealAt data encryptor sessionId bs) := by
  induction is with
  | nil => rfl
  | cons i rest ih =>
    obtain ⟨hi, hlast⟩ := h [] i rest rfl
    have hlen : data.length ≠ 0 := by simpa using hne
    have ih' := ih fun pre j rest' hsplit => h (i :: pre) j rest' (by rw [hsplit]; rfl)
    rw [yieldBlocks, List.mapM_cons, sealAt, if_pos hi, bind_assoc]
    refine bind_congr fun block => ?_
    simp only [hlen, and_false, or_false, pure_bind]
    by_cases hend : (data.length : ℤ) ≤ i + bs
    · rw [hlast.mpr hend]
      simp [hend]
    · simp [hend, ih']

/-- With a positive block size the three loops encrypt the same chunks one after the other: the
lazy one makes the blocks of the eager one, and the third the same blocks without positions. -/
theorem splitters_agree (data : Bytes) (encryptor : Encryptor) (sessionId : Bytes)
    (blockSize : Option ℤ) (hsize : ∀ size, blockSize = some size → 0 ≤ size) :
    streamIter data encryptor sessionId blockSize =
        encryptToStream data encryptor sessionId blockSize ∧
      (data ≠ [] → encryptor.encryptStream data sessionId blockSize =
        List.map (·.block) <$> encryptToStream data encryptor sessionId blockSize) := by
  have hpos := effectiveBlockSize_pos encryptor hsize
  rw [streamIter, Encryptor.encryptStream]
  generalize hbs : effectiveBlockSize encryptor blockSize = bs at hpos
  by_cases hempty : data = []
  · subst hempty
    refine ⟨?_, fun hne => absurd rfl hne⟩
    -- no data: one block at offset 0, as the source has it
    have hrange : rangeStep 1 bs = [0] := by
      rw [rangeStep_eq 1 hpos, Nat.ceilDiv_eq_add_pred_div, Nat.add_sub_cancel_left,
        Nat.div_self (by omega), List.range_one, List.map_singleton, Nat.zero_mul]
    simp [hrange, yieldBlocks, encryptToStream, hpos.le]
  · have hlen : 1 ≤ data.length := List.length_pos_iff.mpr hempty
    have hloop : encryptToStream data encryptor sessionId blockSize =
        (rangeStep data.length bs).mapM (sealAt data encryptor sessionId bs) := by
      rw [encryptToStream, if_neg (by simpa using hempty), hbs]
      rfl
    rw [hloop]
    constructor
    · rw [Nat.max_eq_left hlen]
      refine yieldBlocks_eq_mapM hempty fun pre i rest hsplit => ?_
      obtain ⟨-, hi, hlast⟩ := rangeStep_split hpos hsplit
      exact ⟨hi, hlast⟩
    · intro _
      rw [map_mapM]
      simp only [sealAt, map_bind, map_pure, bind_pure]

end Agreement

/-! ## The chunks -/

/-- The chunks of data that is not empty. -/
theorem chunks_eq {data : Bytes} {bs : ℤ} (hbs : 0 < bs) (hne : data ≠ []) :
    chunks data bs =
      (List.range (data.length ⌈/⌉ bs.toNat)).map fun k => chunkAt data bs (k * bs.toNat) := by
  rw [chunks, if_neg (by simpa using hne), rangeStep_eq _ hbs, List.map_map]
  rfl

/-- A chunk has the block size, or what is left. -/
theorem length_chunkAt (data : Bytes) (bs : ℤ) (i : ℕ) :
    (chunkAt data bs i).length = min bs.toNat (data.length - i) := by
  rw [chunkAt, List.length_take, List.length_drop]

/-- There is one chunk at least. -/
theorem exists_succ_eq_ceilDiv {data : Bytes} {bs : ℤ} (hbs : 0 < bs) (hne : data ≠ []) :
    ∃ m, data.length ⌈/⌉ bs.toNat = m + 1 := by
  have hlen := List.length_pos_iff.mpr hne
  have hpos : 0 < data.length ⌈/⌉ bs.toNat :=
    (lt_ceilDiv_iff (by omega)).mpr (by rw [Nat.zero_mul]; exact hlen)
  exact ⟨_, (Nat.succ_pred_eq_of_pos hpos).symm⟩

/-- Data have as many chunks as blocks, and at least one. -/
theorem length_chunks (data : Bytes) {bs : ℤ} (hbs : 0 < bs) :
    (chunks data bs).length = max 1 (data.length ⌈/⌉ bs.toNat) := by
  by_cases hne : data = []
  · subst hne
    rw [List.length_nil, Nat.ceilDiv_eq_add_pred_div, Nat.div_eq_of_lt (by omega)]
    rfl
  · obtain ⟨m, hm⟩ := exists_succ_eq_ceilDiv hbs hne
    rw [chunks_eq hbs hne, List.length_map, List.length_range, hm]
    omega

/-- All chunks but the last one are full. -/
theorem length_of_mem_dropLast {data : Bytes} {bs : ℤ} (hbs : 0 < bs) :
    ∀ c ∈ (chunks data bs).dropLast, (c.length : ℤ) = bs := by
  by_cases hne : data = []
  · subst hne
    exact nofun
  · obtain ⟨m, hm⟩ := exists_succ_eq_ceilDiv hbs hne
    rw [chunks_eq hbs hne, hm, List.range_succ, List.map_append, List.map_singleton,
      List.dropLast_concat, List.forall_mem_map]
    intro k hk
    have hlt := (lt_ceilDiv_iff (n := data.length) (b := bs.toNat) (k := k + 1) (by omega)).mp
      (by rw [List.mem_range] at hk; omega)
    rw [Nat.add_mul] at hlt
    rw [length_chunkAt]
    omega

/-- The last chunk is empty only if the data is. -/
theorem last_chunk_ne_nil {data : Bytes} {bs : ℤ} (hbs : 0 < bs) (hne : data ≠ []) :
    (chunks data bs).getLast? ≠ some [] := by
  obtain ⟨m, hm⟩ := exists_succ_eq_ceilDiv hbs hne
  rw [chunks_eq hbs hne, hm, List.range_succ, List.map_append, List.map_singleton,
    List.getLast?_concat, ne_eq, Option.some.injEq, ← List.length_eq_zero_iff, length_chunkAt]
  have hlt := (lt_ceilDiv_iff (n := data.length) (b := bs.toNat) (k := m) (by omega)).mp (by omega)
  omega

/-- The longest chunk is the first one. -/
theorem chunks_lt_iff (data : Bytes) {bs : ℤ} (hbs : 0 < bs) {n : ℕ} (hn : 0 < n) :
    (∀ c ∈ chunks data bs, c.length < n) ↔ min data.length bs.toNat < n := by
  by_cases hne : data = []
  · subst hne
    exact iff_of_true (by simpa [chunks] using hn) (by simpa using hn)
  · obtain ⟨m, hm⟩ := exists_succ_eq_ceilDiv hbs hne
    rw [chunks_eq hbs hne, hm, List.forall_mem_map]
    simp only [length_chunkAt, List.mem_range]
    constructor
    · intro hall
      have hfirst := hall 0 (Nat.succ_pos m)
      omega
    · intro hlt k hk
      omega

/-- The mark of the last block is on the last one only. -/
theorem map_isLast_encryptToStream [Cryptography] {data : Bytes} {encryptor : Encryptor}
    {sessionId : Bytes} {blockSize : Option ℤ} {entropy entropy' : Entropy}
    {blocks : List StreamBlock} (hbs : 0 < effectiveBlockSize encryptor blockSize)
    (h : encryptToStream data encryptor sessionId blockSize entropy = .ok blocks entropy') :
    blocks.map (·.isLast) = List.replicate (blocks.length - 1) false ++ [true] := by
  rcases encryptToStream_spec h with ⟨-, block, -, rfl⟩ | ⟨hne, hholds⟩
  · rfl
  · have hmap := map_eq_of_forall₂ (hholds.imp fun i sb hsb => hsb.isLast)
    generalize effectiveBlockSize encryptor blockSize = bs at hholds hmap hbs
    obtain ⟨m, hm⟩ := exists_succ_eq_ceilDiv hbs hne
    -- a block reaches the end of the data if and only if it is the last
    have hmark_iff : ∀ k : ℕ,
        (data.length : ℤ) ≤ (k * bs.toNat : ℕ) + bs ↔ ¬k + 1 < data.length ⌈/⌉ bs.toNat := by
      intro k
      rw [lt_ceilDiv_iff (by omega), Nat.add_mul, Nat.one_mul]
      omega
    rw [hmap, ← hholds.length_eq, rangeStep_eq _ hbs, List.map_map, List.length_map,
      List.length_range, hm, List.range_succ, List.map_append, List.map_singleton,
      Nat.add_sub_cancel]
    congr 1
    · rw [List.eq_replicate_iff, List.length_map, List.length_range, List.forall_mem_map]
      refine ⟨rfl, fun k hk => ?_⟩
      rw [List.mem_range] at hk
      simp only [Function.comp_apply, hmark_iff, decide_eq_false_iff_not]
      omega
    · simp only [Function.comp_apply, hmark_iff, List.cons.injEq, decide_eq_true_eq, and_true]
      omega

/-! ## Encrypting and decrypting a stream -/

/-- The blocks are the chunks of the data: numbered from zero, the last one marked, and each chunk
encrypted into its block. -/
structure Splits [Cryptography] (data : Bytes) (bs : ℤ) (config : EncryptionConfig)
    (sessionId : Bytes) (blocks : List StreamBlock) : Prop where
  index : blocks.map (·.index) = List.range blocks.length
  isLast : blocks.map (·.isLast) = List.replicate (blocks.length - 1) false ++ [true]
  length : blocks.length = max 1 (data.length ⌈/⌉ bs.toNat)
  chunks : ∃ cs : List Bytes, cs.flatten = data ∧
    List.Forall₂ (fun c sb => (Decryptor.ofConfig config).decrypt sb.block sessionId = .ok c)
      cs blocks ∧
    (∀ c ∈ cs.dropLast, (c.length : ℤ) = bs) ∧ (data ≠ [] → cs.getLast? ≠ some [])

section Encrypting

variable [Cryptography] {data : Bytes} {encryptor : Encryptor} {sessionId : Bytes}
  {blockSize : Option ℤ}

/-- Data is encrypted unless it is too long. -/
theorem encrypt_returns_iff (hlib : Cryptography.Accepting) (plaintext : Bytes)
    (entropy : Entropy) :
    (∃ block entropy', encryptor.encrypt plaintext sessionId entropy = .ok block entropy') ↔
      plaintext.length < 2 ^ 31 := by
  constructor
  · rintro ⟨block, entropy', h⟩
    exact hlib.length_data (Encryptor.encrypt_seals h).aesgcm
  · intro hlt
    have hnonce := entropy.length_draw entropy.used nonceSizeBytes
    obtain ⟨ctAndTag, hsealed⟩ : ∃ sealed, Cryptography.aesgcmEncrypt
        (encryptor.config.deriveSessionKey sessionId) _ plaintext = .ok sealed :=
      hlib.accepts hnonce hlt
    have hlen := hlib.length_encrypt hsealed
    have htag : (ctAndTag.drop (ctAndTag.length - tagSizeBytes)).length = tagSizeBytes := by
      rw [List.length_drop, tagSizeBytes]
      omega
    refine ⟨⟨encryptor.config.keyId, _, ctAndTag.take (ctAndTag.length - tagSizeBytes), _, hnonce,
      htag⟩, { entropy with used := entropy.used + 1 }, ?_⟩
    rw [Encryptor.encrypt, bind_ok (show urandom nonceSizeBytes entropy = .ok _ _ from rfl),
      hsealed, liftExcept_ok, bind_ok (pure_apply _ _), EncryptedBlock.create, dif_pos hnonce,
      dif_pos htag]
    rfl

/-- A stream is made unless one of its chunks is too long. -/
theorem encryptToStream_returns_iff (hlib : Cryptography.Accepting)
    (hbs : 0 < effectiveBlockSize encryptor blockSize) (entropy : Entropy) :
    (∃ blocks entropy',
      encryptToStream data encryptor sessionId blockSize entropy = .ok blocks entropy') ↔
      min data.length (effectiveBlockSize encryptor blockSize).toNat < 2 ^ 31 := by
  rw [← chunks_lt_iff data hbs (Nat.two_pow_pos 31), encryptToStream, chunks]
  split
  case isTrue =>
    rw [List.forall_mem_singleton, ← encrypt_returns_iff hlib [] entropy]
    simp only [bind_eq_ok]
    constructor
    · rintro ⟨_, _, block, entropy', h, -⟩
      exact ⟨block, entropy', h⟩
    · rintro ⟨block, entropy', h⟩
      exact ⟨_, _, block, entropy', h, rfl⟩
  case isFalse =>
    rw [List.forall_mem_map]
    refine mapM_returns_iff (fun i s => ?_) _ entropy
    rw [← encrypt_returns_iff hlib _ s]
    simp only [bind_eq_ok]
    constructor
    · rintro ⟨_, _, block, entropy', h, -⟩
      exact ⟨block, entropy', h⟩
    · rintro ⟨block, entropy', h⟩
      exact ⟨_, _, block, entropy', h, rfl⟩

/-- With a positive block size, and a cipher that decrypts what it encrypts, data is split into
blocks that decrypt to it in whatever order they come. Nothing but a chunk that is too long for the
cipher raises. -/
theorem stream_splits (hlib : Cryptography.Accepting) (data : Bytes) (encryptor : Encryptor)
    (sessionId : Bytes) (blockSize : Option ℤ) (hsize : ∀ size, blockSize = some size → 0 ≤ size)
    (entropy : Entropy) :
    ((∃ blocks entropy',
      encryptToStream data encryptor sessionId blockSize entropy = .ok blocks entropy') ↔
      min data.length (effectiveBlockSize encryptor blockSize).toNat < 2 ^ 31) ∧
    ∀ blocks entropy',
      encryptToStream data encryptor sessionId blockSize entropy = .ok blocks entropy' →
      Splits data (effectiveBlockSize encryptor blockSize) encryptor.config sessionId blocks ∧
        ∀ blocks' : List StreamBlock, blocks'.Perm blocks →
          decryptStream blocks' (.ofConfig encryptor.config) sessionId = .ok data := by
  have hbs := effectiveBlockSize_pos encryptor hsize
  refine ⟨encryptToStream_returns_iff hlib hbs entropy, fun blocks entropy' h => ⟨?_, ?_⟩⟩
  · have hseals := encryptToStream_seals h
    refine ⟨map_index_encryptToStream h, map_isLast_encryptToStream hbs h, ?_, chunks data _,
      flatten_chunks data hbs, ?_, length_of_mem_dropLast hbs, last_chunk_ne_nil hbs⟩
    · rw [← hseals.length_eq, length_chunks data hbs]
    · exact hseals.imp fun c sb hsb =>
        hsb.decrypt_eq_ok hlib.toLawful (Decryptor.ofConfig_get encryptor.config) rfl
  · exact fun blocks' hperm => decryptStream_perm hlib.toLawful h hbs hperm

end Encrypting

section Examples

local instance sealingChunks : Cryptography := .seals

/-- Two blocks of one byte. -/
theorem splitters_agree_two :
    streamIter [1, 2] ⟨.zeros⟩ [7] (some 1) = encryptToStream [1, 2] ⟨.zeros⟩ [7] (some 1) ∧
      (([1, 2] : Bytes) ≠ [] → Encryptor.encryptStream ⟨.zeros⟩ [1, 2] [7] (some 1) =
        List.map (·.block) <$> encryptToStream [1, 2] ⟨.zeros⟩ [7] (some 1)) :=
  splitters_agree [1, 2] ⟨.zeros⟩ [7] (some 1) (by simp)

/-- Three bytes in blocks of two. -/
theorem stream_splits_three : ∃ blocks entropy',
    encryptToStream [1, 2, 3] ⟨.zeros⟩ [7] (some 2) .counter = .ok blocks entropy' ∧
      Splits [1, 2, 3] 2 .zeros [7] blocks ∧
      decryptStream blocks.reverse (.ofConfig .zeros) [7] = .ok [1, 2, 3] := by
  obtain ⟨hreturns, hsplits⟩ := stream_splits Cryptography.seals_accepting [1, 2, 3] ⟨.zeros⟩ [7]
    (some 2) (by simp) .counter
  obtain ⟨blocks, entropy', h⟩ := hreturns.mpr (by decide)
  obtain ⟨hsplit, hperm⟩ := hsplits blocks entropy' h
  exact ⟨blocks, entropy', h, hsplit, hperm _ (List.reverse_perm blocks)⟩

end Examples

end CrypticStream

end Chen
