import Chen.Library.Framing
import Chen.Security.Stream

/-!
# The wire formats

What the parsers of blocks and of streams accept, and what they raise. A block is read back exactly
as it was written. A stream is cut into frames, and what is left behind the last one is not looked
at.
-/

namespace Chen

open Effect

/-- The bytes are the encoding of a text. -/
def Str.IsUtf8 (data : Bytes) : Prop := ∃ s, Str.utf8 s = data

/-- A program returns or raises a `CryptoError`. -/
def OnlyCryptoError {α : Type} (r : Except Exn α) : Prop :=
  ∀ x, r = .error x → ∃ message, x = .crypto message

namespace EncryptedBlock

/-- The data is too short for a block, or for the identifier that it announces. -/
def TooShort (data : Bytes) : Prop :=
  data.length < 1 + nonceSizeBytes + tagSizeBytes ∨
    data.length < 1 + (data.headD 0).toNat + nonceSizeBytes + tagSizeBytes

/-- The bytes of the identifier. -/
def keyIdBytes (data : Bytes) : Bytes := (data.drop 1).take (data.headD 0).toNat

/-- The data is a block. -/
def WellFormed (data : Bytes) : Prop := ¬TooShort data ∧ Str.IsUtf8 (keyIdBytes data)

/-- A block whose identifier is short enough is written. -/
theorem serialize_returns {block : EncryptedBlock} (h : (Str.utf8 block.keyId).length ≤ 255) :
    ∃ data, block.serialize = .ok data :=
  ⟨_, serialize_eq_ok.mpr ⟨h, rfl⟩⟩

/-- Data that are too short are refused. -/
theorem deserialize_of_tooShort {data : Bytes} (h : TooShort data) :
    ∃ message, deserialize data = .error (.crypto message) := by
  rw [deserialize]
  split
  case isTrue => exact ⟨_, rfl⟩
  case isFalse hlong =>
    dsimp only
    rw [if_pos (h.resolve_left hlong)]
    exact ⟨_, rfl⟩

/-- What is long enough is parsed as soon as its identifier is. -/
theorem deserialize_of_long {data : Bytes} (h : ¬TooShort data) :
    deserialize data = (Str.decodeUtf8 (keyIdBytes data) >>= fun keyId =>
      create keyId ((data.drop (1 + (data.headD 0).toNat)).take nonceSizeBytes)
        ((data.take (data.length - tagSizeBytes)).drop (1 + (data.headD 0).toNat + nonceSizeBytes))
        (data.drop (data.length - tagSizeBytes))) := by
  obtain ⟨hlong, hid⟩ := not_or.mp h
  rw [deserialize, if_neg hlong]
  dsimp only
  rw [if_neg hid]
  rfl

/-- Data that is long enough consists of a length, an identifier, a nonce, a ciphertext and a
tag. -/
theorem split_of_long {data : Bytes} (h : ¬TooShort data) :
    (keyIdBytes data).length = (data.headD 0).toNat ∧
      ((data.drop (1 + (data.headD 0).toNat)).take nonceSizeBytes).length = nonceSizeBytes ∧
      (data.drop (data.length - tagSizeBytes)).length = tagSizeBytes ∧
      data = data.headD 0 :: (keyIdBytes data ++
        (data.drop (1 + (data.headD 0).toNat)).take nonceSizeBytes ++
        (data.take (data.length - tagSizeBytes)).drop (1 + (data.headD 0).toNat + nonceSizeBytes) ++
        data.drop (data.length - tagSizeBytes)) := by
  rw [TooShort, not_or, not_lt, not_lt] at h
  obtain ⟨hlong, hid⟩ := h
  simp only [nonceSizeBytes, tagSizeBytes] at hlong hid ⊢
  cases data with
  | nil => simp at hlong
  | cons n rest =>
    rw [List.headD_cons] at hid ⊢
    rw [List.length_cons] at hid
    refine ⟨?_, ?_, ?_, ?_⟩
    · rw [keyIdBytes, List.headD_cons, List.drop_succ_cons, List.drop_zero, List.length_take]
      omega
    · rw [List.length_take, List.length_drop, List.length_cons]
      omega
    · rw [List.length_drop, List.length_cons]
      omega
    -- Key id and nonce end before the tag begins, as the data are long enough.
    · have htail : (n :: rest).take ((n :: rest).length - 16) =
          n :: rest.take (rest.length - 16) := by
        rw [List.length_cons, show rest.length + 1 - 16 = (rest.length - 16) + 1 by omega,
          List.take_succ_cons]
      have htag : (n :: rest).drop ((n :: rest).length - 16) = rest.drop (rest.length - 16) := by
        rw [List.length_cons, show rest.length + 1 - 16 = (rest.length - 16) + 1 by omega,
          List.drop_succ_cons]
      have hciphertext : (n :: rest.take (rest.length - 16)).drop (1 + n.toNat + 12) =
          (rest.take (rest.length - 16)).drop (n.toNat + 12) := by
        rw [show 1 + n.toNat + 12 = (n.toNat + 12) + 1 by omega, List.drop_succ_cons]
      have hnonce : (n :: rest).drop (1 + n.toNat) = rest.drop n.toNat := by
        rw [Nat.add_comm, List.drop_succ_cons]
      rw [htail, htag, hciphertext, hnonce, keyIdBytes, List.headD_cons, List.drop_succ_cons,
        List.drop_zero, ← List.take_add]
      have hfront : rest.take (n.toNat + 12) =
          (rest.take (rest.length - 16)).take (n.toNat + 12) := by
        rw [List.take_take, Nat.min_eq_left (by omega)]
      rw [hfront, List.take_append_drop, List.take_append_drop]

/-- What `deserialize` makes of any data. -/
theorem deserialize_cases (data : Bytes) :
    (TooShort data ∧ ∃ message, deserialize data = .error (.crypto message)) ∨
    (¬TooShort data ∧ ¬Str.IsUtf8 (keyIdBytes data) ∧
      ∃ message, deserialize data = .error (.other "UnicodeDecodeError" message)) ∨
    (WellFormed data ∧
      ∃ block, deserialize data = .ok block ∧ block.serialize = .ok data) := by
  by_cases hshort : TooShort data
  · exact .inl ⟨hshort, deserialize_of_tooShort hshort⟩
  · right
    obtain ⟨hkeyId, hnonce, htag, hdata⟩ := split_of_long hshort
    rw [deserialize_of_long hshort]
    cases hdecode : Str.decodeUtf8 (keyIdBytes data) with
    | error x =>
      -- long enough, but the identifier is no text
      have hnone : ¬Str.IsUtf8 (keyIdBytes data) := by
        rintro ⟨s, hs⟩
        cases hdecode.symm.trans (Str.decodeUtf8_eq_ok.mpr hs)
      refine .inl ⟨hshort, hnone, ?_⟩
      rw [Str.decodeUtf8] at hdecode
      split at hdecode
      case h_1 => cases hdecode
      case h_2 =>
        cases hdecode
        exact ⟨_, rfl⟩
    | ok keyId =>
      have hutf8 := Str.decodeUtf8_eq_ok.mp hdecode
      refine .inr ⟨⟨hshort, keyId, hutf8⟩, ?_⟩
      show ∃ block, create _ _ _ _ = _ ∧ _
      rw [create, dif_pos hnonce, dif_pos htag]
      refine ⟨_, rfl, ?_⟩
      refine serialize_eq_ok.mpr ⟨?_, ?_⟩
      · have hlt := (data.headD 0).toNat_lt
        rw [hutf8, hkeyId]
        omega
      · rw [hutf8, hkeyId, UInt8.ofNat_toNat]
        exact hdata

/-- Data are read as a block if and only if the block is written so. -/
theorem deserialize_eq_ok_iff {data : Bytes} {block : EncryptedBlock} :
    deserialize data = .ok block ↔ block.serialize = .ok data := by
  refine ⟨fun h => ?_, deserialize_serialize⟩
  rcases deserialize_cases data with ⟨-, x, hx⟩ | ⟨-, -, x, hx⟩ | ⟨-, block', hblock, hdata⟩
  · cases h.symm.trans hx
  · cases h.symm.trans hx
  · cases h.symm.trans hblock
    exact hdata

/-- Data are read if and only if they are well formed. -/
theorem deserialize_returns_iff {data : Bytes} :
    (∃ block, deserialize data = .ok block) ↔ WellFormed data := by
  rcases deserialize_cases data with ⟨hshort, x, hx⟩ | ⟨-, hid, x, hx⟩ | ⟨hwell, block, hblock, -⟩
  · rw [hx]
    exact iff_of_false nofun fun h => h.1 hshort
  · rw [hx]
    exact iff_of_false nofun fun h => hid h.2
  · exact iff_of_true ⟨block, hblock⟩ hwell

/-- Nothing but the documented error is raised if the identifier is UTF-8. -/
theorem onlyCryptoError_deserialize_iff {data : Bytes} :
    OnlyCryptoError (deserialize data) ↔ TooShort data ∨ Str.IsUtf8 (keyIdBytes data) := by
  rcases deserialize_cases data with
    ⟨hshort, x, hx⟩ | ⟨hlong, hid, x, hx⟩ | ⟨hwell, block, hblock, -⟩
  · rw [hx]
    refine iff_of_true ?_ (.inl hshort)
    rintro _ ⟨⟩
    exact ⟨x, rfl⟩
  · rw [hx]
    refine iff_of_false (fun h => ?_) (not_or.mpr ⟨hlong, hid⟩)
    obtain ⟨message, hmessage⟩ := h _ rfl
    simp [Exn.crypto] at hmessage
  · rw [hblock]
    exact iff_of_true nofun (.inr hwell.2)

/-- Blocks and what the parser accepts correspond to one another: a block whose identifier has at
most 255 bytes is written and read back, and what is read is what would be written. -/
theorem wire_format_bijective :
    (∀ block : EncryptedBlock, (Str.utf8 block.keyId).length ≤ 255 →
      ∃ data, block.serialize = .ok data ∧ deserialize data = .ok block) ∧
    ∀ (data : Bytes) (block : EncryptedBlock), deserialize data = .ok block →
      block.serialize = .ok data := by
  constructor
  · intro block hid
    obtain ⟨data, hdata⟩ := serialize_returns hid
    exact ⟨data, hdata, deserialize_serialize hdata⟩
  · exact fun data block h => deserialize_eq_ok_iff.mp h

/-- A block of zeros without an identifier. -/
def zeros : EncryptedBlock where
  keyId := ""
  nonce := List.replicate 12 0
  ciphertext := []
  tag := List.replicate 16 0
  length_nonce := length_zeroNonce
  length_tag := length_zeroTag

/-- A block with an identifier and a ciphertext. -/
def named : EncryptedBlock where
  keyId := "clé"
  nonce := List.range 12 |>.map UInt8.ofNat
  ciphertext := [1, 2, 3]
  tag := List.replicate 16 255
  length_nonce := rfl
  length_tag := rfl

/-- Such a block is written, and read back. -/
theorem wire_format_bijective_named : ∃ data,
    named.serialize = .ok data ∧ deserialize data = .ok named :=
  wire_format_bijective.1 named (by decide)

end EncryptedBlock

namespace CrypticStream

/-! ## Frames -/

/-- A frame is a length, as many bytes, and the mark of the last block. -/
def framing : Framing UInt8 where
  size data :=
    if 4 + unpackBig (data.take 4) + 1 ≤ data.length then some (4 + unpackBig (data.take 4) + 1)
    else none
  size_pos := by
    intro data n h
    split at h
    · cases h
      omega
    · cases h
  size_le := by
    intro data n h
    split at h
    · cases h
      assumption
    · cases h
  size_of_prefix := by
    intro data data' n h hprefix
    split at h
    case isTrue hle =>
      cases h
      have hlen := hprefix.length_le
      rw [List.length_take, Nat.min_eq_left hle] at hlen
      have htake : data'.take 4 = data.take 4 := by
        obtain ⟨more, rfl⟩ := hprefix
        rw [List.take_append_of_le_length (by rw [List.length_take]; omega), List.take_take,
          Nat.min_eq_left (by omega)]
      rw [htake, if_pos hlen]
    case isFalse => cases h

/-- The serialized block of a frame. -/
def blockBytes (data : Bytes) : Bytes := (data.drop 4).take (unpackBig (data.take 4))

/-- The mark of a frame. -/
def lastFlag (data : Bytes) : UInt8 := (data.drop (4 + unpackBig (data.take 4))).headD 0

/-- One round of the loop of `deserialize_stream`, but for the position. -/
def readFrame (data : Bytes) : Except Exn StreamBlock := do
  let block ← EncryptedBlock.deserialize (blockBytes data)
  pure ⟨0, block, lastFlag data ≠ 0⟩

/-- The size of the frame in front. -/
theorem size_eq_some {data : Bytes} {n : ℕ} :
    framing.size data = some n ↔
      4 + unpackBig (data.take 4) + 1 ≤ data.length ∧ n = 4 + unpackBig (data.take 4) + 1 := by
  show (if _ then _ else _) = _ ↔ _
  split
  case isTrue hle => rw [Option.some.injEq, and_iff_right hle, eq_comm]
  case isFalse hlt => exact iff_of_false nofun fun h => hlt h.1

/-- A frame has a length, as many bytes and a flag. -/
theorem isFrame_iff {data : Bytes} :
    framing.IsFrame data ↔ data.length = 4 + unpackBig (data.take 4) + 1 := by
  rw [Framing.IsFrame, size_eq_some]
  exact ⟨And.right, fun h => ⟨h.ge, h⟩⟩

/-- The block and the mark of the first frame are found without cutting it off. -/
theorem blockBytes_take (data : Bytes) :
    blockBytes (data.take (4 + unpackBig (data.take 4) + 1)) = blockBytes data ∧
      lastFlag (data.take (4 + unpackBig (data.take 4) + 1)) = lastFlag data := by
  have htake : (data.take (4 + unpackBig (data.take 4) + 1)).take 4 = data.take 4 := by
    rw [List.take_take, Nat.min_eq_left (by omega)]
  constructor
  · rw [blockBytes, htake, blockBytes, List.drop_take, List.take_take, Nat.min_eq_left (by omega)]
  · rw [lastFlag, htake, lastFlag, List.drop_take, Nat.add_sub_cancel_left]
    cases data.drop (4 + unpackBig (data.take 4)) <;> rfl

/-- A frame consists of its length, its block and its mark. -/
theorem split_frame {data : Bytes} (h : framing.IsFrame data) :
    (blockBytes data).length = unpackBig (data.take 4) ∧
      data = data.take 4 ++ blockBytes data ++ [lastFlag data] := by
  have hlen := isFrame_iff.mp h
  have hblock : (blockBytes data).length = unpackBig (data.take 4) := by
    rw [blockBytes, List.length_take, List.length_drop]
    omega
  refine ⟨hblock, ?_⟩
  obtain ⟨b, hlast⟩ : ∃ b, data.drop (4 + unpackBig (data.take 4)) = [b] := by
    rw [← List.length_eq_one_iff, List.length_drop]
    omega
  rw [lastFlag, hlast, List.headD_cons, ← hlast, List.append_assoc, blockBytes, ← List.drop_drop,
    List.take_append_drop, List.take_append_drop]

/-- The loop of `deserialize_stream` reads one frame after the other. -/
theorem readBlocks_eq (data : Bytes) (idx : ℕ) :
    readBlocks data idx = renumber idx <$> (framing.frames data).mapM readFrame := by
  induction data using Framing.frames.induct framing generalizing idx with
  | case1 data h =>
    rw [Framing.frames_of_none h]
    -- What is too short for a frame ends the loop, in one of two places.
    have hshort : ¬4 + unpackBig (data.take 4) + 1 ≤ data.length := by
      intro hle
      cases (size_eq_some.mpr ⟨hle, rfl⟩).symm.trans h
    rw [readBlocks]
    split
    case isTrue => rfl
    case isFalse =>
      rw [if_pos (by rw [List.length_drop]; omega)]
      rfl
  | case2 data n h ih =>
    rw [Framing.frames_of_some h, List.mapM_cons]
    obtain ⟨hle, rfl⟩ := size_eq_some.mp h
    obtain ⟨hblock, hflag⟩ := blockBytes_take data
    rw [readBlocks, if_neg (by omega)]
    dsimp only
    rw [if_neg (by rw [List.length_drop]; omega), List.drop_drop, List.drop_drop, ← Nat.add_assoc,
      ih, readFrame, hblock, hflag]
    show (EncryptedBlock.deserialize (blockBytes data) >>= _) = _
    cases EncryptedBlock.deserialize (blockBytes data) with
    | error x => rfl
    | ok block =>
      cases (framing.frames (data.drop (4 + unpackBig (data.take 4) + 1))).mapM readFrame with
      | error x => rfl
      | ok blocks => rfl

/-- A stream is read frame by frame, and numbered. -/
theorem deserializeStream_eq (data : Bytes) :
    deserializeStream data = renumber 0 <$> (framing.frames data).mapM readFrame :=
  readBlocks_eq data 0

/-- A frame that is read has a block and a flag. -/
theorem readFrame_eq_ok {data : Bytes} {sb : StreamBlock} (h : readFrame data = .ok sb) :
    EncryptedBlock.deserialize (blockBytes data) = .ok sb.block ∧
      sb.isLast = decide (lastFlag data ≠ 0) := by
  obtain ⟨block, hblock, hpure⟩ := except_bind_eq_ok.mp h
  cases hpure
  exact ⟨hblock, rfl⟩

/-- A frame is refused as its block is. -/
theorem readFrame_eq_error {data : Bytes} {x : Exn} :
    readFrame data = .error x ↔ EncryptedBlock.deserialize (blockBytes data) = .error x := by
  rw [readFrame]
  cases EncryptedBlock.deserialize (blockBytes data) with
  | ok block => exact iff_of_false nofun nofun
  | error e =>
    show (Except.error e : Except Exn StreamBlock) = .error x ↔ _
    rw [Except.error.injEq, Except.error.injEq]

/-- A frame is read if and only if its block is well formed. -/
theorem readFrame_returns_iff {data : Bytes} :
    (∃ sb, readFrame data = .ok sb) ↔ EncryptedBlock.WellFormed (blockBytes data) := by
  rw [← EncryptedBlock.deserialize_returns_iff]
  constructor
  · rintro ⟨sb, hsb⟩
    exact ⟨sb.block, (readFrame_eq_ok hsb).1⟩
  · rintro ⟨block, hblock⟩
    exact ⟨_, except_bind_eq_ok.mpr ⟨block, hblock, rfl⟩⟩

/-! ## What is raised -/

/-- A stream raises what its first malformed block does. -/
theorem onlyCryptoError_deserializeStream_iff {data : Bytes} :
    OnlyCryptoError (deserializeStream data) ↔
      ∀ pre f post, framing.frames data = pre ++ f :: post →
        (∀ g ∈ pre, EncryptedBlock.WellFormed (blockBytes g)) →
        OnlyCryptoError (EncryptedBlock.deserialize (blockBytes f)) := by
  have hstream : OnlyCryptoError (deserializeStream data) ↔
      ∀ x, (framing.frames data).mapM readFrame = .error x → ∃ message, x = .crypto message := by
    rw [deserializeStream_eq, OnlyCryptoError]
    cases (framing.frames data).mapM readFrame with
    | ok blocks => exact iff_of_true nofun nofun
    | error x => exact Iff.rfl
  rw [hstream]
  constructor
  · intro hall pre f post hsplit hpre x hx
    refine hall x (except_mapM_eq_error.mpr ⟨pre, f, post, hsplit, fun g hg => ?_, ?_⟩)
    · exact readFrame_returns_iff.mpr (hpre g hg)
    · exact readFrame_eq_error.mpr hx
  · rintro hall x hx
    obtain ⟨pre, f, post, hsplit, hpre, hf⟩ := except_mapM_eq_error.mp hx
    exact hall pre f post hsplit (fun g hg => readFrame_returns_iff.mp (hpre g hg)) x
      (readFrame_eq_error.mp hf)

/-- In a stream that raises nothing but a `CryptoError`, blocks that are long enough from the first
one on are well formed. -/
theorem wellFormed_of_long {data : Bytes} (h : OnlyCryptoError (deserializeStream data))
    {pre rest : List Bytes} (hsplit : framing.frames data = pre ++ rest)
    (hlong : ∀ g ∈ pre, ¬EncryptedBlock.TooShort (blockBytes g)) :
    ∀ g ∈ pre, EncryptedBlock.WellFormed (blockBytes g) := by
  induction pre using List.reverseRecOn generalizing rest with
  | nil => exact nofun
  | append_singleton pre g ih =>
    rw [List.append_assoc] at hsplit
    have hpre := ih hsplit fun g hg => hlong g (List.mem_append_left _ hg)
    have hg := hlong g (by simp)
    have hnext := onlyCryptoError_deserializeStream_iff.mp h pre g rest hsplit hpre
    have hid := (EncryptedBlock.onlyCryptoError_deserialize_iff.mp hnext).resolve_left hg
    intro g' hg'
    rcases List.mem_append.mp hg' with hg' | hg'
    · exact hpre g' hg'
    · rw [List.mem_singleton.mp hg']
      exact ⟨hg, hid⟩

/-- Neither parser raises anything but a `CryptoError` if and only if no identifier that it comes
to is malformed: not that of the block, and in a stream not the first malformed one, unless a block
that is too short stands in front of it. -/
theorem only_crypto_errors_iff (data : Bytes) :
    (OnlyCryptoError (EncryptedBlock.deserialize data) ↔
      EncryptedBlock.TooShort data ∨ Str.IsUtf8 (EncryptedBlock.keyIdBytes data)) ∧
    (OnlyCryptoError (deserializeStream data) ↔
      ∀ pre f post, framing.frames data = pre ++ f :: post →
        (∀ g ∈ pre, ¬EncryptedBlock.TooShort (blockBytes g)) →
        EncryptedBlock.TooShort (blockBytes f) ∨
          Str.IsUtf8 (EncryptedBlock.keyIdBytes (blockBytes f))) := by
  refine ⟨EncryptedBlock.onlyCryptoError_deserialize_iff, ?_⟩
  constructor
  · intro h pre f post hsplit hlong
    rw [← EncryptedBlock.onlyCryptoError_deserialize_iff]
    exact onlyCryptoError_deserializeStream_iff.mp h pre f post hsplit
      (wellFormed_of_long h hsplit hlong)
  · intro hall
    refine onlyCryptoError_deserializeStream_iff.mpr fun pre f post hsplit hpre => ?_
    exact EncryptedBlock.onlyCryptoError_deserialize_iff.mpr
      (hall pre f post hsplit fun g hg => (hpre g hg).1)

/-- A block whose identifier is the byte 255. -/
theorem malformed_identifier_raises :
    EncryptedBlock.deserialize (1 :: 255 :: List.replicate 28 0) =
        .error (.other "UnicodeDecodeError" "'utf-8' codec can't decode bytes") ∧
      ¬OnlyCryptoError (EncryptedBlock.deserialize (1 :: 255 :: List.replicate 28 0)) := by
  have h : EncryptedBlock.deserialize (1 :: 255 :: List.replicate 28 0) =
      .error (.other "UnicodeDecodeError" "'utf-8' codec can't decode bytes") := by
    decide
  refine ⟨h, fun hall => ?_⟩
  obtain ⟨message, hmessage⟩ := hall _ h
  simp [Exn.crypto] at hmessage

/-! ## Round trips -/

/-- Blocks that are numbered from `idx` on keep their positions. -/
theorem renumber_eq_self {idx : ℕ} {blocks : List StreamBlock}
    (h : ∀ i (sb : StreamBlock), blocks[i]? = some sb → sb.index = idx + i) :
    renumber idx blocks = blocks := by
  induction blocks generalizing idx with
  | nil => rfl
  | cons sb blocks ih =>
    have hsb := h 0 sb rfl
    rw [renumber, ih]
    · rw [Nat.add_zero] at hsb
      rw [← hsb]
    · intro i sb' hi
      rw [h (i + 1) sb' hi]
      omega

/-- A stream that is numbered in order, of blocks whose serialization has less than `2 ^ 32` bytes,
is written and read back. -/
theorem stream_round_trip (blocks : List StreamBlock)
    (hindex : ∀ i (sb : StreamBlock), blocks[i]? = some sb → sb.index = i)
    (hblocks : ∀ sb ∈ blocks, ∃ data, sb.block.serialize = .ok data ∧ data.length < 2 ^ 32) :
    ∃ data, serializeStream blocks = .ok data ∧ deserializeStream data = .ok blocks := by
  have hframes : ∀ sb ∈ blocks, ∃ bytes, frame sb = .ok bytes := by
    intro sb hsb
    obtain ⟨data, hdata, hlt⟩ := hblocks sb hsb
    exact frame_returns hdata hlt
  obtain ⟨frames, hall, -⟩ := except_mapM_returns hframes
  have hdata : serializeStream blocks = .ok frames.flatten := by
    rw [serializeStream, hall]
    rfl
  refine ⟨_, hdata, ?_⟩
  rw [deserializeStream_serializeStream hdata, renumber_eq_self]
  intro i sb hi
  rw [hindex i sb hi, Nat.zero_add]

/-- What is written for a frame that was read: the frame, with a mark that is zero or one. -/
theorem frame_of_readFrame {data : Bytes} {sb : StreamBlock} (hframe : framing.IsFrame data)
    (h : readFrame data = .ok sb) :
    ∃ bytes, frame sb = .ok bytes ∧ bytes.length = data.length ∧
      (bytes = data ↔ lastFlag data = 0 ∨ lastFlag data = 1) := by
  obtain ⟨hlen, hdata⟩ := split_frame hframe
  obtain ⟨hblock, hlast⟩ := readFrame_eq_ok h
  have hserialize := EncryptedBlock.deserialize_eq_ok_iff.mp hblock
  have htake : (data.take 4).length = 4 := by
    have htotal := isFrame_iff.mp hframe
    rw [List.length_take]
    omega
  have hpack : packBig4 (blockBytes data).length = .ok (data.take 4) := by
    rw [hlen]
    exact packBig4_unpackBig htake
  refine ⟨data.take 4 ++ blockBytes data ++ [if sb.isLast then 1 else 0], ?_, ?_, ?_⟩
  · exact except_bind_eq_ok.mpr ⟨_, hserialize, except_bind_eq_ok.mpr ⟨_, hpack, rfl⟩⟩
  · rw [isFrame_iff.mp hframe, List.length_append, List.length_append, htake, hlen,
      List.length_singleton]
  · conv_lhs => rhs; rw [hdata]
    rw [List.append_cancel_left_eq, List.singleton_inj, hlast]
    by_cases hzero : lastFlag data = 0
    · simp [hzero]
    · simp [hzero, eq_comm]

/-- The index is not written. -/
theorem mapM_frame_renumber (idx : ℕ) (blocks : List StreamBlock) :
    (renumber idx blocks).mapM frame = blocks.mapM frame := by
  induction blocks generalizing idx with
  | nil => rfl
  | cons sb blocks ih =>
    rw [renumber, List.mapM_cons, List.mapM_cons, ih]
    rfl

/-- What is written for the frames that were read. -/
theorem mapM_frame_of_read {fs : List Bytes} {sbs : List StreamBlock}
    (hframes : ∀ f ∈ fs, framing.IsFrame f)
    (h : List.Forall₂ (fun f sb => readFrame f = .ok sb) fs sbs) :
    ∃ written, sbs.mapM frame = .ok written ∧
      List.Forall₂ (fun f bytes => bytes.length = f.length) fs written ∧
      (written = fs ↔ ∀ f ∈ fs, lastFlag f = 0 ∨ lastFlag f = 1) := by
  induction h with
  | nil => exact ⟨[], rfl, .nil, by simp⟩
  | @cons f sb fs sbs hf _ ih =>
    obtain ⟨hframe, hrest⟩ := List.forall_mem_cons.mp hframes
    obtain ⟨bytes, hbytes, hlen, hsame⟩ := frame_of_readFrame hframe hf
    obtain ⟨written, hwritten, hlens, hsames⟩ := ih hrest
    refine ⟨bytes :: written, ?_, .cons hlen hlens, ?_⟩
    · rw [List.mapM_cons, hbytes, hwritten]
      rfl
    · rw [List.cons.injEq, hsame, hsames, List.forall_mem_cons]

/-- What `deserialize_stream` reads is written as the data that it was read from if and only if,
unless one of the blocks is malformed and nothing is read, the data ends with its last frame and
every mark is zero or one. -/
theorem accepted_streams_iff (data : Bytes) :
    (∀ blocks, deserializeStream data = .ok blocks → serializeStream blocks = .ok data) ↔
      ((∀ f ∈ framing.frames data, EncryptedBlock.WellFormed (blockBytes f)) →
        framing.leftover data = [] ∧
          ∀ f ∈ framing.frames data, lastFlag f = 0 ∨ lastFlag f = 1) := by
  by_cases hwell : ∀ f ∈ framing.frames data, EncryptedBlock.WellFormed (blockBytes f)
  case neg =>
    -- a frame that is no block: nothing is accepted
    refine iff_of_true (fun blocks h => ?_) fun h => absurd h hwell
    rw [deserializeStream_eq] at h
    cases hread : (framing.frames data).mapM readFrame with
    | error x =>
      rw [hread] at h
      cases h
    | ok sbs =>
      exact absurd (fun f hf => readFrame_returns_iff.mp (except_returns_of_mapM hread f hf)) hwell
  case pos =>
    obtain ⟨sbs, hread, -⟩ := except_mapM_returns fun f hf => readFrame_returns_iff.mpr (hwell f hf)
    obtain ⟨written, hwritten, hlens, hsame⟩ :=
      mapM_frame_of_read Framing.isFrame_of_mem_frames (except_mapM_eq_ok.mp hread)
    have hdeserialize : deserializeStream data = .ok (renumber 0 sbs) := by
      rw [deserializeStream_eq, hread]
      rfl
    have hserialize : serializeStream (renumber 0 sbs) = .ok written.flatten := by
      rw [serializeStream, mapM_frame_renumber, hwritten]
      rfl
    -- Frames and leftover make up the data, and a flag is written as 0 or 1.
    have hdata : written.flatten = data ↔ framing.leftover data = [] ∧
        ∀ f ∈ framing.frames data, lastFlag f = 0 ∨ lastFlag f = 1 := by
      rw [← hsame, ← Framing.flatten_eq_append_iff hlens, Framing.flatten_frames_append_leftover]
    rw [← hdata]
    constructor
    · intro hall _
      exact Except.ok.inj (hserialize.symm.trans (hall _ hdeserialize))
    · intro hcond blocks hblocks
      cases hdeserialize.symm.trans hblocks
      rw [hserialize, hcond hwell]

/-- Two blocks, of which the second is the last. -/
theorem stream_round_trip_two : ∃ data,
    serializeStream [⟨0, .named, false⟩, ⟨1, .zeros, true⟩] = .ok data ∧
      deserializeStream data = .ok [⟨0, .named, false⟩, ⟨1, .zeros, true⟩] := by
  apply stream_round_trip
  · rintro (_ | _ | i) sb hi
    · cases hi
      rfl
    · cases hi
      rfl
    · cases hi
  · simp only [List.forall_mem_cons]
    refine ⟨?_, ?_, List.forall_mem_nil _⟩
    · exact ⟨4 :: [99, 108, 195, 169] ++ EncryptedBlock.named.nonce ++ [1, 2, 3] ++
        List.replicate 16 255, by decide, by decide⟩
    · exact ⟨0 :: List.replicate 28 0, by decide, by decide⟩

/-- A stream without its last byte is accepted, and its block is lost. -/
theorem truncated_stream_accepted : ∃ data,
    serializeStream [⟨0, .zeros, true⟩] = .ok data ∧
      deserializeStream data.dropLast = .ok [] ∧ serializeStream [] ≠ .ok data.dropLast := by
  refine ⟨[0, 0, 0, 29] ++ 0 :: List.replicate 28 0 ++ [1], by decide, ?_, ?_⟩
  · rw [deserializeStream_eq, Framing.frames_of_none (by decide)]
    rfl
  · decide

end CrypticStream

end Chen
