import Chen.Library.Concat
import Chen.Security.Crypto
import Mathlib.Data.List.Sort

/-!
# Cryptic streams

A byte string is cut into chunks, each encrypted into a block of its own. A block carries its
position; on the wire only the blocks themselves travel, each behind its length.
-/

namespace Chen

open Effect

/-- `StreamBlock`. -/
structure StreamBlock where
  index : ℕ
  block : EncryptedBlock
  isLast : Bool
deriving DecidableEq

/-- `range(0, stop, step)`, for a step other than zero. -/
def rangeStep (stop : ℕ) (step : ℤ) : List ℕ :=
  if 0 < step then (List.range ((stop + step.toNat - 1) / step.toNat)).map (· * step.toNat) else []

namespace CrypticStream

/-- `block_size or encryptor.config.block_size`. -/
def effectiveBlockSize (encryptor : Encryptor) : Option ℤ → ℤ
  | none => encryptor.config.blockSize
  | some size => if size = 0 then encryptor.config.blockSize else size

/-- `data[i : i + bs]`. -/
def chunkAt (data : Bytes) (bs : ℤ) (i : ℕ) : Bytes := (data.drop i).take bs.toNat

section Streams

variable [Cryptography]

/-- `encrypt_to_stream`. -/
def encryptToStream (data : Bytes) (encryptor : Encryptor) (sessionId : Bytes)
    (blockSize : Option ℤ := none) : EStateM Exn Entropy (List StreamBlock) :=
  let bs := effectiveBlockSize encryptor blockSize
  if data.isEmpty then do
    let block ← encryptor.encrypt [] sessionId
    pure [⟨0, block, true⟩]
  else
    (rangeStep data.length bs).mapM fun i => do
      let block ← encryptor.encrypt (chunkAt data bs i) sessionId
      pure ⟨i / bs.toNat, block, data.length ≤ i + bs⟩

/-- `decrypt_stream`. -/
def decryptStream (blocks : List StreamBlock) (decryptor : Decryptor) (sessionId : Bytes) :
    Except Exn Bytes := do
  let sortedBlocks := blocks.insertionSort (·.index ≤ ·.index)
  let chunks ← sortedBlocks.mapM fun sb => decryptor.decrypt sb.block sessionId
  pure chunks.flatten

end Streams

/-- One block on the wire. -/
def frame (sb : StreamBlock) : Except Exn Bytes := do
  let blockBytes ← sb.block.serialize
  let length ← packBig4 blockBytes.length
  pure (length ++ blockBytes ++ [if sb.isLast then 1 else 0])

/-- `serialize_stream`. -/
def serializeStream (blocks : List StreamBlock) : Except Exn Bytes :=
  List.flatten <$> blocks.mapM frame

/-- The loop of `deserialize_stream`, on the data that is left. Data that ends early ends the
loop. -/
def readBlocks (data : Bytes) (idx : ℕ) : Except Exn (List StreamBlock) :=
  if data.length < 4 then .ok []
  else
    let blockLen := unpackBig (data.take 4)
    let rest := data.drop 4
    if rest.length < blockLen + 1 then .ok []
    else do
      let isLast := (rest.drop blockLen).headD 0
      let block ← EncryptedBlock.deserialize (rest.take blockLen)
      let blocks ← readBlocks (rest.drop (blockLen + 1)) (idx + 1)
      pure (⟨idx, block, isLast ≠ 0⟩ :: blocks)
termination_by data.length
decreasing_by
  simp only [List.length_drop]
  omega

/-- `deserialize_stream`. -/
def deserializeStream (data : Bytes) : Except Exn (List StreamBlock) := readBlocks data 0

/-! ## The chunks of a stream -/

/-- The chunks that are encrypted. -/
def chunks (data : Bytes) (bs : ℤ) : List Bytes :=
  if data.isEmpty then [[]] else (rangeStep data.length bs).map (chunkAt data bs)

/-- The chunks make up the data. -/
theorem flatten_chunks (data : Bytes) {bs : ℤ} (hbs : 0 < bs) :
    (chunks data bs).flatten = data := by
  have hjoined : ∀ m : ℕ, ((List.range m).map fun k => chunkAt data bs (k * bs.toNat)).flatten =
      data.take (m * bs.toNat) := by
    intro m
    induction m with
    | zero => simp
    | succ m ih =>
      rw [List.range_succ, List.map_append, List.flatten_append, ih, Nat.succ_mul, List.take_add]
      simp [chunkAt]
  rw [chunks]
  split
  case isTrue hempty =>
    rw [List.isEmpty_iff.mp hempty]
    rfl
  case isFalse =>
    rw [rangeStep, if_pos hbs, List.map_map]
    show ((List.range _).map fun k => chunkAt data bs (k * bs.toNat)).flatten = data
    rw [hjoined, List.take_of_length_le]
    have hpos : 0 < bs.toNat := by omega
    have hle := Nat.lt_mul_div_succ (data.length + bs.toNat - 1) hpos
    rw [Nat.mul_add, Nat.mul_comm] at hle
    omega

section Sealed

variable [Cryptography]

/-- A block holds the chunk at a position. -/
structure Holds (data : Bytes) (encryptor : Encryptor) (sessionId : Bytes) (bs : ℤ) (i : ℕ)
    (sb : StreamBlock) : Prop where
  seals : sb.block.Seals encryptor.config sessionId (chunkAt data bs i)
  index : sb.index = i / bs.toNat
  isLast : sb.isLast = decide (data.length ≤ i + bs)

/-- A stream has a block for each chunk, and one block if there is no data. -/
theorem encryptToStream_spec {data : Bytes} {encryptor : Encryptor} {sessionId : Bytes}
    {blockSize : Option ℤ} {entropy entropy' : Entropy} {blocks : List StreamBlock}
    (h : encryptToStream data encryptor sessionId blockSize entropy = .ok blocks entropy') :
    (data = [] ∧ ∃ block : EncryptedBlock, block.Seals encryptor.config sessionId [] ∧
      blocks = [⟨0, block, true⟩]) ∨
    (data ≠ [] ∧ List.Forall₂
      (Holds data encryptor sessionId (effectiveBlockSize encryptor blockSize))
      (rangeStep data.length (effectiveBlockSize encryptor blockSize)) blocks) := by
  rw [encryptToStream] at h
  split at h
  case isTrue hempty =>
    obtain ⟨block, entropy₁, hblock, hpure⟩ := bind_eq_ok.mp h
    cases hpure
    exact .inl ⟨List.isEmpty_iff.mp hempty, block, Encryptor.encrypt_seals hblock, rfl⟩
  case isFalse hempty =>
    refine .inr ⟨by simpa using hempty, forall₂_of_mapM ?_ h⟩
    intro i s sb s' hsb
    obtain ⟨block, entropy₁, hblock, hpure⟩ := bind_eq_ok.mp hsb
    cases hpure
    exact ⟨Encryptor.encrypt_seals hblock, rfl, rfl⟩

/-- The blocks of a stream seal its chunks, in order. -/
theorem encryptToStream_seals {data : Bytes} {encryptor : Encryptor} {sessionId : Bytes}
    {blockSize : Option ℤ} {entropy entropy' : Entropy} {blocks : List StreamBlock}
    (h : encryptToStream data encryptor sessionId blockSize entropy = .ok blocks entropy') :
    List.Forall₂ (fun chunk sb => sb.block.Seals encryptor.config sessionId chunk)
      (chunks data (effectiveBlockSize encryptor blockSize)) blocks := by
  rw [chunks]
  rcases encryptToStream_spec h with ⟨rfl, block, hseals, rfl⟩ | ⟨hne, hholds⟩
  · exact .cons hseals .nil
  · rw [if_neg (by simpa using hne), List.forall₂_map_left_iff]
    exact hholds.imp fun i sb hsb => hsb.seals

/-- Every block seals some chunk. -/
theorem exists_seals {config : EncryptionConfig} {sessionId : Bytes} {cs : List Bytes}
    {blocks : List StreamBlock}
    (h : List.Forall₂ (fun chunk sb => sb.block.Seals config sessionId chunk) cs blocks) :
    ∀ sb ∈ blocks, ∃ chunk, sb.block.Seals config sessionId chunk := by
  induction h with
  | nil => exact nofun
  | cons hseals _ ih => exact List.forall_mem_cons.mpr ⟨⟨_, hseals⟩, ih⟩

/-- What a decryptor makes of a block; where it raises, so does the stream. -/
def opened (decryptor : Decryptor) (sessionId : Bytes) (sb : StreamBlock) : Bytes :=
  match decryptor.decrypt sb.block sessionId with
  | .ok plaintext => plaintext
  | .error _ => []

/-- A decryptor with the key opens every block of a stream. -/
theorem decrypt_of_seals (hlaws : Cryptography.Lawful) {config : EncryptionConfig}
    {sessionId : Bytes} {cs : List Bytes} {blocks : List StreamBlock}
    (h : List.Forall₂ (fun chunk sb => sb.block.Seals config sessionId chunk) cs blocks) :
    blocks.map (opened (.ofConfig config) sessionId) = cs ∧ ∀ sb ∈ blocks,
      (Decryptor.ofConfig config).decrypt sb.block sessionId =
        .ok (opened (.ofConfig config) sessionId sb) := by
  induction h with
  | nil => simp
  | cons hseals _ ih =>
    obtain ⟨hmap, hall⟩ := ih
    have hopen := hseals.decrypt_eq_ok hlaws (Decryptor.ofConfig_get config) rfl
    refine ⟨?_, List.forall_mem_cons.mpr ⟨?_, hall⟩⟩
    · rw [List.map_cons, hmap, opened, hopen]
    · rw [opened, hopen]

/-- Decryption joins what the blocks hold, in the order of their positions. -/
theorem decryptStream_eq {decryptor : Decryptor} {sessionId : Bytes} {blocks : List StreamBlock}
    (h : ∀ sb ∈ blocks, decryptor.decrypt sb.block sessionId =
      .ok (opened decryptor sessionId sb)) :
    decryptStream blocks decryptor sessionId =
      .ok ((blocks.insertionSort (·.index ≤ ·.index)).flatMap (opened decryptor sessionId)) := by
  have hmap : (blocks.insertionSort (·.index ≤ ·.index)).mapM
      (fun sb => decryptor.decrypt sb.block sessionId) =
        .ok ((blocks.insertionSort (·.index ≤ ·.index)).map (opened decryptor sessionId)) := by
    rw [except_mapM_eq_ok, List.forall₂_map_right_iff, List.forall₂_same]
    exact fun sb hsb => h sb ((List.mem_insertionSort _).mp hsb)
  rw [decryptStream, hmap, List.flatMap_def]
  rfl

end Sealed

/-! ## The wire -/

/-- A block is framed if its serialization has less than `2 ^ 32` bytes. -/
theorem frame_returns {sb : StreamBlock} {data : Bytes} (h : sb.block.serialize = .ok data)
    (hlt : data.length < 2 ^ 32) : ∃ bytes, frame sb = .ok bytes := by
  obtain ⟨length, hpack, -, -⟩ := packBig4_eq_ok hlt
  exact ⟨_, except_bind_eq_ok.mpr ⟨data, h, except_bind_eq_ok.mpr ⟨length, hpack, rfl⟩⟩⟩

/-- A frame in front of more data is read as the next block, whatever its position was. -/
theorem readBlocks_frame {sb : StreamBlock} {data : Bytes} (h : frame sb = .ok data)
    (more : Bytes) (idx : ℕ) :
    readBlocks (data ++ more) idx =
      (({ sb with index := idx }) :: ·) <$> readBlocks more (idx + 1) := by
  obtain ⟨blockBytes, hserialize, hrest⟩ := except_bind_eq_ok.mp h
  obtain ⟨length, hpack, hpure⟩ := except_bind_eq_ok.mp hrest
  cases hpure
  obtain ⟨length', hpack', hlen, hunpack⟩ := packBig4_eq_ok (lt_of_packBig4 hpack)
  cases hpack.symm.trans hpack'
  generalize hflag : (if sb.isLast then (1 : UInt8) else 0) = flag
  have hdata : length ++ blockBytes ++ [flag] ++ more = length ++ (blockBytes ++ flag :: more) := by
    simp
  have htake : (length ++ (blockBytes ++ flag :: more)).take 4 = length := List.take_left' hlen
  have hdrop : (length ++ (blockBytes ++ flag :: more)).drop 4 = blockBytes ++ flag :: more :=
    List.drop_left' hlen
  have hlast : decide (flag ≠ 0) = sb.isLast := by
    rw [← hflag]
    cases sb.isLast <;> rfl
  rw [readBlocks, hdata, if_neg (by rw [List.length_append]; omega), htake, hdrop, hunpack,
    if_neg (by rw [List.length_append, List.length_cons]; omega), List.take_left' rfl,
    EncryptedBlock.deserialize_serialize hserialize, List.drop_left' rfl,
    ← List.drop_drop, List.drop_left' rfl, List.drop_succ_cons, List.drop_zero, List.headD_cons,
    ← hlast]
  cases readBlocks more (idx + 1) <;> rfl

/-- The blocks with the positions in which they arrive. -/
def renumber (idx : ℕ) : List StreamBlock → List StreamBlock
  | [] => []
  | sb :: blocks => { sb with index := idx } :: renumber (idx + 1) blocks

/-- What is written is read back, with the blocks renumbered. -/
theorem readBlocks_flatten {blocks : List StreamBlock} {frames : List Bytes}
    (h : List.Forall₂ (fun sb data => frame sb = .ok data) blocks frames) (idx : ℕ) :
    readBlocks frames.flatten idx = .ok (renumber idx blocks) := by
  induction h generalizing idx with
  | nil =>
    rw [readBlocks, if_pos (by simp)]
    rfl
  | cons hframe _ ih =>
    rw [List.flatten_cons, readBlocks_frame hframe, ih]
    rfl

/-- A stream is read back with the indices of its order. -/
theorem deserializeStream_serializeStream {blocks : List StreamBlock} {data : Bytes}
    (h : serializeStream blocks = .ok data) :
    deserializeStream data = .ok (renumber 0 blocks) := by
  rw [serializeStream] at h
  cases hframes : blocks.mapM frame with
  | error x =>
    rw [hframes] at h
    cases h
  | ok frames =>
    rw [hframes] at h
    cases h
    exact readBlocks_flatten (except_mapM_eq_ok.mp hframes) 0

/-- Indices count up from the first. -/
theorem le_index_renumber {idx : ℕ} {blocks : List StreamBlock} :
    ∀ sb ∈ renumber idx blocks, idx ≤ sb.index := by
  induction blocks generalizing idx with
  | nil => simp [renumber]
  | cons sb blocks ih =>
    rw [renumber, List.forall_mem_cons]
    exact ⟨le_rfl, fun sb' hsb' => (Nat.le_succ idx).trans (ih sb' hsb')⟩

/-- The positions on arrival are in order, so sorting by them does nothing. -/
theorem insertionSort_renumber (idx : ℕ) (blocks : List StreamBlock) :
    (renumber idx blocks).insertionSort (·.index ≤ ·.index) = renumber idx blocks := by
  refine List.Pairwise.insertionSort_eq ?_
  induction blocks generalizing idx with
  | nil => exact .nil
  | cons sb blocks ih =>
    refine List.pairwise_cons.mpr ⟨fun sb' hsb' => ?_, ih (idx + 1)⟩
    exact (Nat.le_succ idx).trans (le_index_renumber sb' hsb')

/-- Renumbering keeps the blocks. -/
theorem mem_renumber {idx : ℕ} {blocks : List StreamBlock} {sb : StreamBlock}
    (h : sb ∈ renumber idx blocks) : ∃ sb' ∈ blocks, sb'.block = sb.block := by
  induction blocks generalizing idx with
  | nil => cases h
  | cons sb₀ blocks ih =>
    rcases List.mem_cons.mp h with rfl | h
    · exact ⟨sb₀, List.mem_cons_self .., rfl⟩
    · obtain ⟨sb', hsb', heq⟩ := ih h
      exact ⟨sb', List.mem_cons_of_mem _ hsb', heq⟩

variable [Cryptography]

/-- Renumbered blocks open as before. -/
theorem map_opened_renumber (decryptor : Decryptor) (sessionId : Bytes) (idx : ℕ)
    (blocks : List StreamBlock) :
    (renumber idx blocks).map (opened decryptor sessionId) =
      blocks.map (opened decryptor sessionId) := by
  induction blocks generalizing idx with
  | nil => rfl
  | cons sb blocks ih =>
    rw [renumber, List.map_cons, ih, List.map_cons]
    rfl

/-- Serialize, parse and decrypt. -/
def overTheWire (blocks : List StreamBlock) (decryptor : Decryptor) (sessionId : Bytes) :
    Except Exn Bytes := do
  let data ← serializeStream blocks
  let blocks ← deserializeStream data
  decryptStream blocks decryptor sessionId

/-- Over the wire, decryption joins what the blocks hold in the order of their arrival. -/
theorem overTheWire_eq {blocks : List StreamBlock} {data : Bytes}
    (hdata : serializeStream blocks = .ok data) {decryptor : Decryptor} {sessionId : Bytes}
    (h : ∀ sb ∈ blocks, decryptor.decrypt sb.block sessionId =
      .ok (opened decryptor sessionId sb)) :
    overTheWire blocks decryptor sessionId =
      .ok (blocks.flatMap (opened decryptor sessionId)) := by
  have hall : ∀ sb ∈ renumber 0 blocks, decryptor.decrypt sb.block sessionId =
      .ok (opened decryptor sessionId sb) := by
    intro sb hsb
    obtain ⟨sb', hsb', hblock⟩ := mem_renumber hsb
    have hopen := h sb' hsb'
    rw [hblock] at hopen
    rw [opened, hopen]
  rw [overTheWire, hdata]
  show (deserializeStream data >>= fun blocks => decryptStream blocks decryptor sessionId) = _
  rw [deserializeStream_serializeStream hdata]
  show decryptStream (renumber 0 blocks) decryptor sessionId = _
  rw [decryptStream_eq hall, insertionSort_renumber, List.flatMap_def, List.flatMap_def,
    map_opened_renumber]

end CrypticStream

end Chen
