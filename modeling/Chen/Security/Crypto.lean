import Chen.Library.Effect
import Chen.Python.Dict
import Chen.Security.Config

/-!
# Encrypted blocks

AES-256-GCM encryption of byte strings into blocks that name their key. The encryptor's and the
decryptor's dictionaries of derived keys are left out here: what they would hold is derived again.
`CachingDecryptor` is the decryptor with its dictionary.
-/

namespace Chen

open Effect

/-- `EncryptedBlock`, with what its constructor checks. -/
structure EncryptedBlock where
  keyId : String
  nonce : Bytes
  ciphertext : Bytes
  tag : Bytes
  length_nonce : nonce.length = nonceSizeBytes
  length_tag : tag.length = tagSizeBytes
deriving DecidableEq

namespace EncryptedBlock

theorem length_zeroNonce : (List.replicate 12 (0 : UInt8)).length = nonceSizeBytes := rfl

theorem length_zeroTag : (List.replicate 16 (0 : UInt8)).length = tagSizeBytes := rfl

/-- The constructor. -/
def create (keyId : String) (nonce ciphertext tag : Bytes) : Except Exn EncryptedBlock :=
  if hnonce : nonce.length = nonceSizeBytes then
    if htag : tag.length = tagSizeBytes then .ok ⟨keyId, nonce, ciphertext, tag, hnonce, htag⟩
    else .error (.crypto s!"tag must be {tagSizeBytes} bytes, got {tag.length}")
  else .error (.crypto s!"nonce must be {nonceSizeBytes} bytes, got {nonce.length}")

/-- What the constructor returns has what it was given. -/
theorem create_eq_ok {keyId : String} {nonce ciphertext tag : Bytes} {block : EncryptedBlock}
    (h : create keyId nonce ciphertext tag = .ok block) :
    block.keyId = keyId ∧ block.nonce = nonce ∧ block.ciphertext = ciphertext ∧
      block.tag = tag := by
  rw [create] at h
  split_ifs at h
  cases h
  exact ⟨rfl, rfl, rfl, rfl⟩

/-- `serialize`. -/
def serialize (block : EncryptedBlock) : Except Exn Bytes :=
  let keyIdBytes := Str.utf8 block.keyId
  if 255 < keyIdBytes.length then .error (.crypto "key_id too long (max 255 bytes)")
  else
    .ok (UInt8.ofNat keyIdBytes.length ::
      keyIdBytes ++ block.nonce ++ block.ciphertext ++ block.tag)

/-- `deserialize`. -/
def deserialize (data : Bytes) : Except Exn EncryptedBlock :=
  if data.length < 1 + nonceSizeBytes + tagSizeBytes then
    .error (.crypto "data too short to be an EncryptedBlock")
  else
    let keyIdLen := (data.headD 0).toNat
    if data.length < 1 + keyIdLen + nonceSizeBytes + tagSizeBytes then
      .error (.crypto "data too short for declared key_id length")
    else do
      let keyId ← Str.decodeUtf8 ((data.drop 1).take keyIdLen)
      let offset := 1 + keyIdLen
      let nonce := (data.drop offset).take nonceSizeBytes
      let offset := offset + nonceSizeBytes
      let tagStart := data.length - tagSizeBytes
      create keyId nonce ((data.take tagStart).drop offset) (data.drop tagStart)

/-- What `serialize` writes has a byte for the length of the identifier. -/
theorem serialize_eq_ok {block : EncryptedBlock} {data : Bytes} :
    block.serialize = .ok data ↔ (Str.utf8 block.keyId).length ≤ 255 ∧
      data = UInt8.ofNat (Str.utf8 block.keyId).length ::
        (Str.utf8 block.keyId ++ block.nonce ++ block.ciphertext ++ block.tag) := by
  rw [serialize]
  split
  case isTrue h => exact iff_of_false nofun fun h' => absurd h'.1 (by omega)
  case isFalse h =>
    rw [Except.ok.injEq, eq_comm]
    exact ⟨fun heq => ⟨by omega, heq⟩, fun h' => h'.2⟩

/-- The length of a block on the wire. -/
theorem length_serialize {block : EncryptedBlock} {data : Bytes} (h : block.serialize = .ok data) :
    data.length = 29 + (Str.utf8 block.keyId).length + block.ciphertext.length := by
  obtain ⟨-, rfl⟩ := serialize_eq_ok.mp h
  have hnonce := block.length_nonce
  have htag := block.length_tag
  simp only [nonceSizeBytes, tagSizeBytes] at hnonce htag
  simp only [List.length_cons, List.length_append]
  omega

/-- A block is read back as it was written. -/
theorem deserialize_serialize {block : EncryptedBlock} {data : Bytes}
    (h : block.serialize = .ok data) : deserialize data = .ok block := by
  have hlen := length_serialize h
  obtain ⟨hid, hdata⟩ := serialize_eq_ok.mp h
  have hnonce := block.length_nonce
  have htag := block.length_tag
  -- Each field is found where the length byte and the fixed sizes say.
  have hkeyIdLen : (data.headD 0).toNat = (Str.utf8 block.keyId).length := by
    rw [hdata, List.headD_cons, UInt8.toNat_ofNat']
    omega
  have hkeyId : (data.drop 1).take (Str.utf8 block.keyId).length = Str.utf8 block.keyId := by
    rw [hdata, List.drop_succ_cons, List.drop_zero, List.append_assoc, List.append_assoc,
      List.take_left']
    rfl
  have hafter : data.drop (1 + (Str.utf8 block.keyId).length) =
      block.nonce ++ (block.ciphertext ++ block.tag) := by
    rw [hdata, Nat.add_comm, List.drop_succ_cons, List.append_assoc, List.append_assoc,
      List.drop_left']
    rfl
  have hrest : data.drop (1 + (Str.utf8 block.keyId).length + nonceSizeBytes) =
      block.ciphertext ++ block.tag := by
    rw [← List.drop_drop, hafter, List.drop_left' hnonce]
  have htagStart : data.length - tagSizeBytes =
      1 + (Str.utf8 block.keyId).length + nonceSizeBytes + block.ciphertext.length := by
    simp only [nonceSizeBytes, tagSizeBytes]
    omega
  have hciphertext : (data.take (data.length - tagSizeBytes)).drop
      (1 + (Str.utf8 block.keyId).length + nonceSizeBytes) = block.ciphertext := by
    rw [List.drop_take, hrest, htagStart, Nat.add_sub_cancel_left, List.take_left' rfl]
  have htag' : data.drop (data.length - tagSizeBytes) = block.tag := by
    rw [htagStart, ← List.drop_drop, hrest, List.drop_left' rfl]
  rw [deserialize, if_neg (by simp only [nonceSizeBytes, tagSizeBytes]; omega), hkeyIdLen,
    if_neg (by simp only [nonceSizeBytes, tagSizeBytes]; omega), hkeyId, Str.decodeUtf8_utf8,
    Effect.except_bind_eq_ok]
  refine ⟨block.keyId, rfl, ?_⟩
  dsimp only
  rw [hafter, List.take_left' hnonce, hciphertext, htag', create, dif_pos hnonce, dif_pos htag]

end EncryptedBlock

/-! ## Encryption and decryption -/

/-- `Encryptor`. -/
structure Encryptor where
  config : EncryptionConfig

/-- `Decryptor`: the configurations that it knows, by their identifiers. -/
structure Decryptor where
  keys : Dict String EncryptionConfig

variable [Cryptography]

namespace Encryptor

/-- `encrypt`. -/
def encrypt (encryptor : Encryptor) (plaintext sessionId : Bytes) :
    EStateM Exn Entropy EncryptedBlock := do
  let key := encryptor.config.deriveSessionKey sessionId
  let nonce ← urandom nonceSizeBytes
  let ctAndTag ← liftExcept (Cryptography.aesgcmEncrypt key nonce plaintext)
  let tagStart := ctAndTag.length - tagSizeBytes
  liftExcept (EncryptedBlock.create encryptor.config.keyId nonce (ctAndTag.take tagStart)
    (ctAndTag.drop tagStart))

/-- `encrypt_text`. -/
def encryptText (encryptor : Encryptor) (text : String) (sessionId : Bytes) :
    EStateM Exn Entropy EncryptedBlock :=
  encryptor.encrypt (Str.utf8 text) sessionId

end Encryptor

namespace Decryptor

omit [Cryptography] in
/-- The constructor. -/
def ofConfig (config : EncryptionConfig) : Decryptor := ⟨[(config.keyId, config)]⟩

omit [Cryptography] in
/-- `add_key`. -/
def addKey (decryptor : Decryptor) (config : EncryptionConfig) : Decryptor :=
  ⟨Dict.set decryptor.keys config.keyId config⟩

/-- `decrypt`. -/
def decrypt (decryptor : Decryptor) (block : EncryptedBlock) (sessionId : Bytes) :
    Except Exn Bytes :=
  match Dict.get? decryptor.keys block.keyId with
  | none => .error (.crypto s!"unknown key_id: {block.keyId}")
  | some config =>
    let key := config.deriveSessionKey sessionId
    match Cryptography.aesgcmDecrypt key block.nonce (block.ciphertext ++ block.tag) with
    | .ok plaintext => .ok plaintext
    | .error _ => .error (.crypto "decryption failed (wrong key or tampered data)")

/-- `decrypt_text`. -/
def decryptText (decryptor : Decryptor) (block : EncryptedBlock) (sessionId : Bytes) :
    Except Exn String := do
  Str.decodeUtf8 (← decryptor.decrypt block sessionId)

end Decryptor

/-! ## What a block holds -/

/-- The block is `plaintext`, sealed under the key that `config` has for the session. -/
structure EncryptedBlock.Seals (block : EncryptedBlock) (config : EncryptionConfig)
    (sessionId plaintext : Bytes) : Prop where
  keyId : block.keyId = config.keyId
  aesgcm : Cryptography.aesgcmEncrypt (config.deriveSessionKey sessionId) block.nonce plaintext =
    .ok (block.ciphertext ++ block.tag)

/-- What an encryptor returns is a sealed block. -/
theorem Encryptor.encrypt_seals {encryptor : Encryptor} {plaintext sessionId : Bytes}
    {entropy entropy' : Entropy} {block : EncryptedBlock}
    (h : encryptor.encrypt plaintext sessionId entropy = .ok block entropy') :
    block.Seals encryptor.config sessionId plaintext := by
  obtain ⟨nonce, entropy₁, -, hseal⟩ := bind_eq_ok.mp h
  obtain ⟨ctAndTag, entropy₂, hlift, hblock⟩ := bind_eq_ok.mp hseal
  obtain ⟨hsealed, -⟩ := liftExcept_eq_ok.mp hlift
  obtain ⟨hcreate, -⟩ := liftExcept_eq_ok.mp hblock
  obtain ⟨hkeyId, hnonce, hciphertext, htag⟩ := EncryptedBlock.create_eq_ok hcreate
  refine ⟨hkeyId, ?_⟩
  rw [hnonce, hciphertext, htag, List.take_append_drop]
  exact hsealed

/-- GCM keeps the length. -/
theorem EncryptedBlock.Seals.length_ciphertext {block : EncryptedBlock} {config : EncryptionConfig}
    {sessionId plaintext : Bytes} (h : block.Seals config sessionId plaintext)
    (hlaws : Cryptography.Lawful) : block.ciphertext.length = plaintext.length := by
  have hlen := hlaws.length_encrypt h.aesgcm
  have htag := block.length_tag
  rw [List.length_append, htag, tagSizeBytes] at hlen
  omega

/-- A decryptor that has the key opens the block. -/
theorem EncryptedBlock.Seals.decrypt_eq_ok {block : EncryptedBlock} {config : EncryptionConfig}
    {sessionId plaintext : Bytes} (h : block.Seals config sessionId plaintext)
    (hlaws : Cryptography.Lawful) {decryptor : Decryptor} {config' : EncryptionConfig}
    (hkey : Dict.get? decryptor.keys config.keyId = some config')
    (hmaster : config'.masterKey = config.masterKey) :
    decryptor.decrypt block sessionId = .ok plaintext := by
  have hsession : config'.deriveSessionKey sessionId = config.deriveSessionKey sessionId := by
    rw [EncryptionConfig.deriveSessionKey, hmaster, EncryptionConfig.deriveSessionKey]
  rw [Decryptor.decrypt, h.keyId, hkey]
  simp only [hsession, hlaws.decrypt_encrypt h.aesgcm]

/-- In another session the block is rejected. -/
theorem EncryptedBlock.Seals.decrypt_eq_error {block : EncryptedBlock} {config : EncryptionConfig}
    {sessionId sessionId' plaintext : Bytes} (h : block.Seals config sessionId plaintext)
    (hideal : Cryptography.Ideal) {decryptor : Decryptor}
    (hkey : Dict.get? decryptor.keys config.keyId = some config) (hlen : sessionId.length = 16)
    (hlen' : sessionId'.length = 16) (hne : sessionId ≠ sessionId') :
    ∃ e, decryptor.decrypt block sessionId' = .error e := by
  obtain ⟨e, hreject⟩ := hideal.isolated hlen hlen' hne h.aesgcm
  refine ⟨.crypto "decryption failed (wrong key or tampered data)", ?_⟩
  rw [Decryptor.decrypt, h.keyId, hkey]
  simp only [hreject]

omit [Cryptography] in
/-- A new decryptor has the key of its configuration. -/
theorem Decryptor.ofConfig_get (config : EncryptionConfig) :
    Dict.get? (ofConfig config).keys config.keyId = some config := by
  simp [ofConfig, Dict.get?]

end Chen
