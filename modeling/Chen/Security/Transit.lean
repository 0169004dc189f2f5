import Chen.Security.Stream

/-!
# Streams in transit

What a stream loses when blocks go missing, are repeated, or arrive in another order. The positions
and the mark of the last block are not checked, and the positions do not travel.
-/

namespace Chen.CrypticStream

open Effect

/-! ## Missing and repeated blocks -/

/-- A negative block size makes no blocks at all, except for empty data. -/
theorem chunks_eq_nil_iff {data : Bytes} {encryptor : Encryptor} {blockSize : Option ℤ} :
    chunks data (effectiveBlockSize encryptor blockSize) = [] ↔
      data ≠ [] ∧ ∃ size, blockSize = some size ∧ size < 0 := by
  have hconfig := encryptor.config.le_blockSize
  have hsize : effectiveBlockSize encryptor blockSize ≤ 0 ↔
      ∃ size, blockSize = some size ∧ size < 0 := by
    cases blockSize with
    | none => exact iff_of_false (by rw [effectiveBlockSize]; omega) (by simp)
    | some size =>
      rw [effectiveBlockSize]
      simp only [Option.some.injEq, exists_eq_left']
      split <;> omega
  rw [← hsize, chunks]
  cases data with
  | nil => simp
  | cons b data =>
    rw [if_neg (by simp), List.map_eq_nil_iff, rangeStep]
    split
    case isTrue hpos =>
      rw [List.map_eq_nil_iff, List.range_eq_nil]
      have hdiv : 1 ≤ ((b :: data).length + (effectiveBlockSize encryptor blockSize).toNat - 1) /
          (effectiveBlockSize encryptor blockSize).toNat := by
        rw [Nat.one_le_div_iff (by omega), List.length_cons]
        omega
      exact iff_of_false (by omega) fun h => absurd h.2 (by omega)
    case isFalse hneg => simp; omega

section Missing

variable [Cryptography]

/-- Decryption of blocks of a stream, some of them missing or repeated, never returns anything but
the data, if and only if the data is empty, or the block size is negative and there are no
blocks. -/
theorem integrity_iff (hlaws : Cryptography.Lawful) (data : Bytes) (encryptor : Encryptor)
    (sessionId : Bytes) (blockSize : Option ℤ) (entropy entropy' : Entropy)
    (blocks : List StreamBlock)
    (h : encryptToStream data encryptor sessionId blockSize entropy = .ok blocks entropy') :
    (∀ blocks' : List StreamBlock, (∀ sb ∈ blocks', sb ∈ blocks) →
      (∃ sb ∈ blocks, blocks'.count sb ≠ 1) →
      ∀ out, decryptStream blocks' (.ofConfig encryptor.config) sessionId = .ok out →
        out = data) ↔
    data = [] ∨ ∃ size, blockSize = some size ∧ size < 0 := by
  have hseals := encryptToStream_seals h
  constructor
  · intro hall
    by_contra hcon
    obtain ⟨hdata, hsize⟩ := not_or.mp hcon
    have hchunks : chunks data (effectiveBlockSize encryptor blockSize) ≠ [] :=
      fun hnil => hsize (chunks_eq_nil_iff.mp hnil).2
    have hblocks : blocks ≠ [] := by
      rintro rfl
      exact hchunks (List.forall₂_nil_right_iff.mp hseals)
    obtain ⟨sb, hsb⟩ := List.exists_mem_of_ne_nil _ hblocks
    -- all the blocks are missing
    exact hdata (hall [] nofun ⟨sb, hsb, by simp⟩ [] rfl).symm
  · intro hcond blocks' hsub ⟨sb, hsb, hcount⟩ out hout
    by_cases hdata : data = []
    · subst hdata
      have hempty : chunks [] (effectiveBlockSize encryptor blockSize) = [[]] := rfl
      obtain ⟨hmap, hopen⟩ := decrypt_of_seals hlaws hseals
      rw [hempty] at hmap
      have hnil : ∀ sb ∈ blocks', opened (.ofConfig encryptor.config) sessionId sb = [] := by
        intro sb hsb
        have hmem := List.mem_map_of_mem (f := opened (.ofConfig encryptor.config) sessionId)
          (hsub sb hsb)
        rw [hmap] at hmem
        exact List.mem_singleton.mp hmem
      rw [decryptStream_eq fun sb hsb => hopen sb (hsub sb hsb)] at hout
      cases hout
      rw [List.flatMap_eq_nil_iff]
      exact fun sb hsb => hnil sb ((List.mem_insertionSort _).mp hsb)
    · rw [chunks_eq_nil_iff.mpr ⟨hdata, hcond.resolve_left hdata⟩,
        List.forall₂_nil_left_iff] at hseals
      rw [hseals] at hsb
      cases hsb

end Missing

section Examples

local instance sealing : Cryptography := .seals

/-- An empty stream may be repeated. -/
theorem integrity_empty : ∃ blocks entropy',
    encryptToStream [] ⟨.zeros⟩ [7] none .counter = .ok blocks entropy' ∧
      ∀ out, decryptStream (blocks ++ blocks) (.ofConfig .zeros) [7] = .ok out → out = [] := by
  have hrun : ∃ blocks entropy', encryptToStream [] ⟨.zeros⟩ [7] none .counter =
      .ok blocks entropy' ∧ ∃ sb ∈ blocks, (blocks ++ blocks).count sb ≠ 1 :=
    Returned.exists (by decide)
  obtain ⟨blocks, entropy', h, hrepeated⟩ := hrun
  refine ⟨blocks, entropy', h, ?_⟩
  exact (integrity_iff Cryptography.seals_lawful [] ⟨.zeros⟩ [7] none .counter entropy' blocks
    h).mpr (.inl rfl) (blocks ++ blocks) (by simp) hrepeated

/-- The second of two blocks is dropped, and decryption returns the first. -/
theorem missing_block_unnoticed : ∃ blocks entropy',
    encryptToStream [1, 2] ⟨.zeros⟩ [7] (some 1) .counter = .ok blocks entropy' ∧
      (∀ sb ∈ blocks.take 1, sb ∈ blocks) ∧ (∃ sb ∈ blocks, (blocks.take 1).count sb ≠ 1) ∧
      decryptStream (blocks.take 1) (.ofConfig .zeros) [7] = .ok [1] ∧
      ([1] : Bytes) ≠ [1, 2] :=
  Returned.exists (by decide)

end Examples

/-! ## Blocks in another order -/

section Order

variable [Cryptography]

/-- The blocks of a stream are numbered from zero. -/
theorem map_index_encryptToStream {data : Bytes} {encryptor : Encryptor} {sessionId : Bytes}
    {blockSize : Option ℤ} {entropy entropy' : Entropy} {blocks : List StreamBlock}
    (h : encryptToStream data encryptor sessionId blockSize entropy = .ok blocks entropy') :
    blocks.map (·.index) = List.range blocks.length := by
  rcases encryptToStream_spec h with ⟨-, block, -, rfl⟩ | ⟨-, hholds⟩
  · rfl
  · have hmap := map_eq_of_forall₂ (hholds.imp fun i sb hsb => hsb.index)
    rw [hmap, ← hholds.length_eq, rangeStep]
    split
    case isTrue hpos =>
      rw [List.map_map, List.length_map, List.length_range]
      refine (List.map_congr_left fun k _ => ?_).trans (List.map_id _)
      exact Nat.mul_div_cancel k (by omega)
    case isFalse => rfl

/-- In memory, every rearrangement of a stream is decrypted to the data. -/
theorem decryptStream_perm (hlaws : Cryptography.Lawful) {data : Bytes} {encryptor : Encryptor}
    {sessionId : Bytes} {blockSize : Option ℤ} {entropy entropy' : Entropy}
    {blocks blocks' : List StreamBlock}
    (h : encryptToStream data encryptor sessionId blockSize entropy = .ok blocks entropy')
    (hsize : 0 < effectiveBlockSize encryptor blockSize) (hperm : blocks'.Perm blocks) :
    decryptStream blocks' (.ofConfig encryptor.config) sessionId = .ok data := by
  obtain ⟨hmap, hopen⟩ := decrypt_of_seals hlaws (encryptToStream_seals h)
  have hindex := map_index_encryptToStream h
  -- the indices are distinct, so that there is one sorted order
  have hsorted : blocks.Pairwise (·.index ≤ ·.index) := by
    rw [← List.pairwise_map, hindex]
    exact List.pairwise_le_range
  have hinj : ∀ sb ∈ blocks, ∀ sb' ∈ blocks, sb.index = sb'.index → sb = sb' := by
    intro sb hsb sb' hsb' heq
    refine List.inj_on_of_nodup_map ?_ hsb hsb' heq
    rw [hindex]
    exact List.nodup_range
  have : Std.Total fun sb sb' : StreamBlock => sb.index ≤ sb'.index :=
    ⟨fun sb sb' => le_total sb.index sb'.index⟩
  have : IsTrans StreamBlock fun sb sb' => sb.index ≤ sb'.index :=
    ⟨fun _ _ _ => le_trans⟩
  have hsort : blocks'.insertionSort (·.index ≤ ·.index) = blocks := by
    have hperm' := (List.perm_insertionSort (·.index ≤ ·.index) blocks').trans hperm
    refine hperm'.eq_of_pairwise ?_ ?_ hsorted
    · intro sb sb' hsb hsb' hle hge
      exact hinj sb (hperm'.mem_iff.mp hsb) sb' hsb' (le_antisymm hle hge)
    · exact List.pairwise_insertionSort _ _
  rw [decryptStream_eq fun sb hsb => hopen sb (hperm.mem_iff.mp hsb), hsort, List.flatMap_def,
    hmap, flatten_chunks data hsize]

/-- A block is framed unless the identifier of its key is too long. -/
theorem frame_eq_ok_iff (hlaws : Cryptography.Lawful) {sb : StreamBlock}
    {config : EncryptionConfig} {sessionId chunk : Bytes}
    (h : sb.block.Seals config sessionId chunk) :
    (∃ data, frame sb = .ok data) ↔ (Str.utf8 config.keyId).length ≤ 255 := by
  constructor
  · rintro ⟨data, hframe⟩
    obtain ⟨blockBytes, hserialize, -⟩ := except_bind_eq_ok.mp hframe
    rw [← h.keyId]
    exact (EncryptedBlock.serialize_eq_ok.mp hserialize).1
  · intro hid
    rw [← h.keyId] at hid
    obtain ⟨blockBytes, hserialize⟩ : ∃ blockBytes, sb.block.serialize = .ok blockBytes :=
      ⟨_, EncryptedBlock.serialize_eq_ok.mpr ⟨hid, rfl⟩⟩
    have hlen := EncryptedBlock.length_serialize hserialize
    have hchunk := hlaws.length_data h.aesgcm
    rw [h.length_ciphertext hlaws] at hlen
    exact frame_returns hserialize (by omega)

/-- A stream is serialized unless the identifier of its key is too long. -/
theorem serializeStream_eq_ok_iff (hlaws : Cryptography.Lawful) {blocks : List StreamBlock}
    (hne : blocks ≠ []) {config : EncryptionConfig} {sessionId : Bytes}
    (h : ∀ sb ∈ blocks, ∃ chunk, sb.block.Seals config sessionId chunk) :
    (∃ data, serializeStream blocks = .ok data) ↔ (Str.utf8 config.keyId).length ≤ 255 := by
  constructor
  · rintro ⟨data, hdata⟩
    obtain ⟨sb, hsb⟩ := List.exists_mem_of_ne_nil _ hne
    obtain ⟨chunk, hseals⟩ := h sb hsb
    rw [← frame_eq_ok_iff hlaws hseals]
    rw [serializeStream] at hdata
    cases hframes : blocks.mapM frame with
    | error x =>
      rw [hframes] at hdata
      cases hdata
    | ok frames => exact except_returns_of_mapM hframes sb hsb
  · intro hid
    obtain ⟨frames, hframes, -⟩ := except_mapM_returns fun sb hsb => by
      obtain ⟨chunk, hseals⟩ := h sb hsb
      exact (frame_eq_ok_iff hlaws hseals).mpr hid
    exact ⟨frames.flatten, by rw [serializeStream, hframes]; rfl⟩

/-- Blocks come over the wire if the identifier of their key has room, and are what they are opened
to, one behind the other. -/
theorem overTheWire_eq_ok_iff (hlaws : Cryptography.Lawful) {blocks : List StreamBlock}
    (hne : blocks ≠ []) {config : EncryptionConfig} {sessionId data : Bytes}
    (hsealed : ∀ sb ∈ blocks, ∃ chunk, sb.block.Seals config sessionId chunk)
    (hopen : ∀ sb ∈ blocks, (Decryptor.ofConfig config).decrypt sb.block sessionId =
      .ok (opened (.ofConfig config) sessionId sb)) :
    overTheWire blocks (.ofConfig config) sessionId = .ok data ↔
      (Str.utf8 config.keyId).length ≤ 255 ∧
        blocks.flatMap (opened (.ofConfig config) sessionId) = data := by
  rw [← serializeStream_eq_ok_iff hlaws hne hsealed]
  cases hserialize : serializeStream blocks with
  | error x =>
    rw [overTheWire, hserialize]
    exact iff_of_false (fun hwire => by cases hwire) (by simp)
  | ok bytes =>
    rw [overTheWire_eq hserialize hopen, Except.ok.injEq]
    exact ⟨fun heq => ⟨⟨bytes, rfl⟩, heq⟩, fun h => h.2⟩

/-- Every rearrangement of a stream gives back the data over the wire if and only if the
identifier of the key has at most 255 bytes and every two chunks commute. -/
theorem reordering_harmless_iff (hlaws : Cryptography.Lawful) (data : Bytes)
    (encryptor : Encryptor) (sessionId : Bytes) (size : ℤ) (hsize : 1 ≤ size)
    (entropy entropy' : Entropy) (blocks : List StreamBlock)
    (h : encryptToStream data encryptor sessionId (some size) entropy = .ok blocks entropy') :
    (∀ blocks' : List StreamBlock, blocks'.Perm blocks →
      overTheWire blocks' (.ofConfig encryptor.config) sessionId = .ok data) ↔
    (Str.utf8 encryptor.config.keyId).length ≤ 255 ∧
      ∀ x ∈ chunks data size, ∀ y ∈ chunks data size, x ++ y = y ++ x := by
  have heff : effectiveBlockSize encryptor (some size) = size := by
    rw [effectiveBlockSize, if_neg (by omega)]
  have hseals := encryptToStream_seals h
  rw [heff] at hseals
  obtain ⟨hmap, hopen⟩ := decrypt_of_seals hlaws hseals
  have hdata : blocks.flatMap (opened (.ofConfig encryptor.config) sessionId) = data := by
    rw [List.flatMap_def, hmap, flatten_chunks data (by omega)]
  have hne : blocks ≠ [] := by
    rintro rfl
    have hnil := List.forall₂_nil_right_iff.mp hseals
    rw [← heff, chunks_eq_nil_iff] at hnil
    obtain ⟨-, _, ⟨⟩, hneg⟩ := hnil
    omega
  have hsealed := exists_seals hseals
  -- On the wire the order is the index, so that the data are concatenated as the blocks stand.
  have hwire : ∀ blocks' : List StreamBlock, blocks'.Perm blocks →
      (overTheWire blocks' (.ofConfig encryptor.config) sessionId = .ok data ↔
        (Str.utf8 encryptor.config.keyId).length ≤ 255 ∧
          blocks'.flatMap (opened (.ofConfig encryptor.config) sessionId) = data) := by
    intro blocks' hperm
    have hne' : blocks' ≠ [] := fun hnil => hne (List.nil_perm.mp (hnil ▸ hperm))
    exact overTheWire_eq_ok_iff hlaws hne' (fun sb hsb => hsealed sb (hperm.mem_iff.mp hsb))
      fun sb hsb => hopen sb (hperm.mem_iff.mp hsb)
  have hcommute : (∀ x ∈ chunks data size, ∀ y ∈ chunks data size, x ++ y = y ++ x) ↔
      Concat.Commute (opened (.ofConfig encryptor.config) sessionId) blocks := by
    rw [← hmap]
    simp only [List.forall_mem_map]
    exact Iff.rfl
  rw [hcommute, ← Concat.flatMap_eq_iff]
  constructor
  · intro hall
    refine ⟨((hwire blocks (.refl _)).mp (hall blocks (.refl _))).1, fun blocks' hperm => ?_⟩
    rw [hdata]
    exact ((hwire blocks' hperm).mp (hall blocks' hperm)).2
  · rintro ⟨hid, hall⟩ blocks' hperm
    exact (hwire blocks' hperm).mpr ⟨hid, (hall blocks' hperm).trans hdata⟩

end Order

section Examples

local instance sealingAgain : Cryptography := .seals

/-- Two blocks of one content may change places. -/
theorem reordering_harmless_equal : ∃ blocks entropy',
    encryptToStream [7, 7] ⟨.zeros⟩ [7] (some 1) .counter = .ok blocks entropy' ∧
      blocks.length = 2 ∧ overTheWire blocks.reverse (.ofConfig .zeros) [7] = .ok [7, 7] := by
  have hrun : ∃ blocks entropy', encryptToStream [7, 7] ⟨.zeros⟩ [7] (some 1) .counter =
      .ok blocks entropy' ∧ blocks.length = 2 :=
    Returned.exists (by decide)
  obtain ⟨blocks, entropy', h, hlength⟩ := hrun
  refine ⟨blocks, entropy', h, hlength, ?_⟩
  exact (reordering_harmless_iff Cryptography.seals_lawful [7, 7] ⟨.zeros⟩ [7] 1 le_rfl .counter
    entropy' blocks h).mpr ⟨by decide, by decide⟩ blocks.reverse (List.reverse_perm blocks)

/-- Two blocks that arrive in the opposite order are decrypted in that order. -/
theorem reordered_stream_garbled : ∃ blocks entropy',
    encryptToStream [1, 2] ⟨.zeros⟩ [7] (some 1) .counter = .ok blocks entropy' ∧
      blocks.reverse.Perm blocks ∧
      overTheWire blocks.reverse (.ofConfig .zeros) [7] = .ok [2, 1] := by
  have hrun : ∃ blocks entropy', encryptToStream [1, 2] ⟨.zeros⟩ [7] (some 1) .counter =
      .ok blocks entropy' ∧ (serializeStream blocks.reverse).isOk ∧
        (∀ sb ∈ blocks.reverse, (Decryptor.ofConfig .zeros).decrypt sb.block [7] =
          .ok (opened (.ofConfig .zeros) [7] sb)) ∧
        blocks.reverse.flatMap (opened (.ofConfig .zeros) [7]) = [2, 1] :=
    Returned.exists (by decide)
  obtain ⟨blocks, entropy', h, hserialize, hopen, hjoin⟩ := hrun
  refine ⟨blocks, entropy', h, List.reverse_perm blocks, ?_⟩
  cases hdata : serializeStream blocks.reverse with
  | error x =>
    rw [hdata] at hserialize
    cases hserialize
  | ok data => rw [overTheWire_eq hdata hopen, hjoin]

end Examples

end Chen.CrypticStream
