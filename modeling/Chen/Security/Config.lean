import Chen.Python.Base64
import Chen.Python.Bytes

/-!
# Encryption configurations

A master key with the identifier under which blocks name it. The third-party `cryptography` library
is a parameter.
-/

namespace Chen

/-- The operations of the `cryptography` library that the code calls. -/
class Cryptography where
  /-- `HKDF(algorithm=SHA256(), length=32, salt=salt, info=info).derive(key_material)`. -/
  hkdf (salt info keyMaterial : Bytes) : Bytes
  /-- `AESGCM(key).encrypt(nonce, data, None)`: the ciphertext and the tag. -/
  aesgcmEncrypt (key nonce data : Bytes) : Except Exn Bytes
  /-- `AESGCM(key).decrypt(nonce, data, None)`. -/
  aesgcmDecrypt (key nonce data : Bytes) : Except Exn Bytes

/-- What the library documents: decryption undoes encryption, the tag has sixteen bytes, and data
of `2 ^ 31` bytes or more is refused. -/
structure Cryptography.Lawful [Cryptography] : Prop where
  decrypt_encrypt : ∀ {key nonce data sealed}, aesgcmEncrypt key nonce data = .ok sealed →
    aesgcmDecrypt key nonce sealed = .ok data
  length_encrypt : ∀ {key nonce data sealed}, aesgcmEncrypt key nonce data = .ok sealed →
    sealed.length = data.length + 16
  length_data : ∀ {key nonce data sealed}, aesgcmEncrypt key nonce data = .ok sealed →
    data.length < 2 ^ 31

/-- A library that only stamps: data stays in the clear, and the tag is a stamp of the key. -/
@[reducible] def Cryptography.stamping (hkdf : Bytes → Bytes → Bytes → Bytes)
    (stamp : Bytes → Bytes) : Cryptography where
  hkdf := hkdf
  aesgcmEncrypt key _ data :=
    if data.length < 2 ^ 31 then .ok (data ++ stamp key)
    else .error (.other "OverflowError" "Data or associated data too long. Max 2**31 - 1 bytes")
  aesgcmDecrypt key _ data :=
    let tagStart := data.length - 16
    if data.drop tagStart = stamp key then .ok (data.take tagStart)
    else .error (.other "InvalidTag" "")

/-- A library that only seals: data stays in the clear, and the tag is the beginning of the key.
Keys repeat the session's identifier. -/
@[reducible] def Cryptography.seals : Cryptography where
  hkdf salt _ _ := (salt ++ List.replicate 32 0).take 32
  aesgcmEncrypt key _ data :=
    if data.length < 2 ^ 31 then .ok (data ++ (key ++ List.replicate 16 0).take 16)
    else .error (.other "OverflowError" "Data or associated data too long. Max 2**31 - 1 bytes")
  aesgcmDecrypt key _ data :=
    let tagStart := data.length - 16
    if data.drop tagStart = (key ++ List.replicate 16 0).take 16 then .ok (data.take tagStart)
    else .error (.other "InvalidTag" "")

section Stamping

variable {hkdf : Bytes → Bytes → Bytes → Bytes} {stamp : Bytes → Bytes}

/-- What is encrypted has the stamp of its key behind it. -/
theorem Cryptography.stamping_encrypt {key nonce data sealed : Bytes}
    (h : (stamping hkdf stamp).aesgcmEncrypt key nonce data = .ok sealed) :
    data.length < 2 ^ 31 ∧ sealed = data ++ stamp key := by
  by_cases hlt : data.length < 2 ^ 31
  · cases (if_pos hlt).symm.trans h
    exact ⟨hlt, rfl⟩
  · cases (if_neg hlt).symm.trans h

/-- What is stamped is accepted under the keys that have the same stamp. -/
theorem Cryptography.stamping_decrypt {tag : Bytes} (htag : tag.length = 16)
    (key nonce data : Bytes) :
    (stamping hkdf stamp).aesgcmDecrypt key nonce (data ++ tag) =
      if tag = stamp key then .ok data else .error (.other "InvalidTag" "") := by
  have htagStart : (data ++ tag).length - 16 = data.length := by
    rw [List.length_append, htag, Nat.add_sub_cancel]
  show (if _ then _ else _) = _
  rw [htagStart, List.drop_left' rfl, List.take_left' rfl]

/-- A stamp of 16 bytes makes a lawful library. -/
theorem Cryptography.stamping_lawful (hstamp : ∀ key, (stamp key).length = 16) :
    letI := Cryptography.stamping hkdf stamp
    Cryptography.Lawful := by
  refine @Lawful.mk (stamping hkdf stamp) ?opens ?length ?data
  case opens =>
    intro key nonce data sealed h
    obtain ⟨-, rfl⟩ := stamping_encrypt h
    rw [stamping_decrypt (hstamp key), if_pos rfl]
  case length =>
    intro key nonce data sealed h
    obtain ⟨-, rfl⟩ := stamping_encrypt h
    rw [List.length_append, hstamp]
  case data =>
    intro key nonce data sealed h
    exact (stamping_encrypt h).1

end Stamping

/-- The stamp of the second library has 16 bytes. -/
theorem Cryptography.length_sealsTag (key : Bytes) :
    ((key ++ List.replicate 16 0).take 16).length = 16 := by
  rw [List.length_take, List.length_append, List.length_replicate]
  omega

/-- The second library is lawful. -/
theorem Cryptography.seals_lawful : letI := Cryptography.seals; Cryptography.Lawful :=
  stamping_lawful length_sealsTag

/-- `CryptoError(message)`. -/
def Exn.crypto (message : String) : Exn := .other "CryptoError" message

/-- `KEY_SIZE_BYTES`. -/
def keySizeBytes : ℕ := 32

/-- `NONCE_SIZE_BYTES`. -/
def nonceSizeBytes : ℕ := 12

/-- `TAG_SIZE_BYTES`. -/
def tagSizeBytes : ℕ := 16

/-- `HKDF_INFO`. -/
def hkdfInfo : Bytes := Str.utf8 "chen-encryption-v1"

/-- `DEFAULT_BLOCK_SIZE_BYTES`. -/
def defaultBlockSizeBytes : ℤ := 4096

/-- `EncryptionConfig`, with what its constructor checks. -/
structure EncryptionConfig where
  masterKey : Bytes
  keyId : String
  blockSize : ℤ
  length_masterKey : masterKey.length = keySizeBytes
  le_blockSize : 64 ≤ blockSize
deriving DecidableEq

namespace EncryptionConfig

theorem le_defaultBlockSize : 64 ≤ defaultBlockSizeBytes := by decide

/-- The constructor. -/
def create (masterKey : Bytes) (keyId : String) (blockSize : ℤ := defaultBlockSizeBytes) :
    Except Exn EncryptionConfig :=
  if hkey : masterKey.length = keySizeBytes then
    if hsize : 64 ≤ blockSize then .ok ⟨masterKey, keyId, blockSize, hkey, hsize⟩
    else .error (.value s!"block_size must be at least 64 bytes, got {blockSize}.")
  else
    .error (.value s!"master_key must be exactly {keySizeBytes} bytes ({keySizeBytes * 8} bits), got {masterKey.length}.")

/-- What the constructor returns has what it was given. -/
theorem create_eq_ok {masterKey : Bytes} {keyId : String} {blockSize : ℤ}
    {config : EncryptionConfig} (h : create masterKey keyId blockSize = .ok config) :
    config.masterKey = masterKey ∧ config.keyId = keyId ∧ config.blockSize = blockSize := by
  rw [create] at h
  split_ifs at h
  cases h
  exact ⟨rfl, rfl, rfl⟩

/-- `generate`: a random key, under a random identifier if none is given. -/
def generate (keyId : Option String := none) : EStateM Exn Entropy EncryptionConfig := do
  let masterKey ← urandom keySizeBytes
  match keyId with
  | none | some "" =>
    let id ← urandom 8
    liftExcept (create masterKey (Str.hex id))
  | some id => liftExcept (create masterKey id)

/-- What `generate` draws next. -/
def next (entropy : Entropy) : EncryptionConfig where
  masterKey := entropy.draw entropy.used keySizeBytes
  keyId := Str.hex (entropy.draw (entropy.used + 1) 8)
  blockSize := defaultBlockSizeBytes
  length_masterKey := entropy.length_draw _ _
  le_blockSize := by decide

/-- A new configuration takes two draws. -/
theorem generate_eq (entropy : Entropy) :
    generate none entropy = .ok (next entropy) { entropy with used := entropy.used + 2 } := by
  show (liftExcept (create _ _) : EStateM Exn Entropy EncryptionConfig) _ = _
  rw [create, dif_pos (entropy.length_draw _ _), dif_pos (by decide)]
  rfl

/-- A new identifier is not empty. -/
theorem next_keyId_ne (entropy : Entropy) : (next entropy).keyId ≠ "" := by
  intro h
  have hlen := congrArg String.length h
  rw [next, Str.length_hex, entropy.length_draw] at hlen
  exact absurd hlen (by decide)

/-- `from_env`. -/
def fromEnv (environ : String → Option String) : EStateM Exn Entropy EncryptionConfig :=
  match environ "CHEN_MASTER_KEY" with
  | none | some "" => generate
  | some keyB64 =>
    match Base64.b64decode keyB64 with
    | .error e => throw (.value ("CHEN_MASTER_KEY is not valid base64: " ++ Base64.errorText e))
    | .ok masterKey => liftExcept (create masterKey ((environ "CHEN_KEY_ID").getD ""))

/-- Without an identifier in the environment, the key goes by the empty one. -/
theorem fromEnv_unnamed (config : EncryptionConfig) {environ : String → Option String}
    (hkey : environ "CHEN_MASTER_KEY" = some (Base64.b64encode config.masterKey))
    (hid : environ "CHEN_KEY_ID" = none) (entropy : Entropy) :
    fromEnv environ entropy = .ok
      ⟨config.masterKey, "", defaultBlockSizeBytes, config.length_masterKey, by decide⟩ entropy := by
  have hne : Base64.b64encode config.masterKey ≠ "" := by
    intro h
    have hle := Base64.le_length_b64encode config.masterKey
    rw [h, config.length_masterKey] at hle
    exact absurd hle (by decide)
  have hset : fromEnv environ = match Base64.b64decode (Base64.b64encode config.masterKey) with
      | .error e => throw (.value ("CHEN_MASTER_KEY is not valid base64: " ++ Base64.errorText e))
      | .ok masterKey => liftExcept (create masterKey ((environ "CHEN_KEY_ID").getD "")) := by
    rw [fromEnv, hkey]
    split
    case h_1 heq => cases heq
    case h_2 heq => exact absurd (Option.some.inj heq) hne
    case h_3 heq =>
      cases heq
      rfl
  rw [hset, Base64.b64decode_b64encode, hid]
  show (liftExcept (create _ _) : EStateM Exn Entropy EncryptionConfig) _ = _
  rw [create, Option.getD_none, dif_pos config.length_masterKey, dif_pos (by decide)]
  rfl

/-- `derive_session_key`. -/
def deriveSessionKey [Cryptography] (config : EncryptionConfig) (sessionId : Bytes) : Bytes :=
  Cryptography.hkdf sessionId hkdfInfo config.masterKey

end EncryptionConfig

/-- An ideal cipher: what is sealed in one session is rejected in every other one. -/
structure Cryptography.Ideal [Cryptography] : Prop extends Cryptography.Lawful where
  isolated : ∀ {config : EncryptionConfig} {id id' nonce data sealed}, id.length = 16 →
    id'.length = 16 → id ≠ id' →
    aesgcmEncrypt (config.deriveSessionKey id) nonce data = .ok sealed →
    ∃ e, aesgcmDecrypt (config.deriveSessionKey id') nonce sealed = .error e

/-- The second library is ideal. -/
theorem Cryptography.seals_ideal : letI := Cryptography.seals; Cryptography.Ideal := by
  have hkey : ∀ (config : EncryptionConfig) {id : Bytes}, id.length = 16 →
      (@EncryptionConfig.deriveSessionKey seals config id ++ List.replicate 16 0).take 16 = id := by
    intro config id hid
    show (((id ++ List.replicate 32 0).take 32) ++ List.replicate 16 0).take 16 = id
    rw [List.take_append_of_le_length (by simp [hid]), List.take_take]
    exact List.take_left' hid
  refine @Ideal.mk seals seals_lawful ?_
  intro config id id' nonce data sealed hid hid' hne h
  obtain ⟨-, rfl⟩ := stamping_encrypt h
  refine ⟨_, (stamping_decrypt (length_sealsTag _) _ _ _).trans (if_neg ?_)⟩
  rwa [hkey config hid, hkey config hid']

/-- What the library documents of its limits: with a nonce of twelve bytes, all data of less than
`2 ^ 31` bytes is encrypted. -/
structure Cryptography.Accepting [Cryptography] : Prop extends Cryptography.Lawful where
  accepts : ∀ {config : EncryptionConfig} {id nonce data : Bytes}, nonce.length = 12 →
    data.length < 2 ^ 31 →
    ∃ sealed, aesgcmEncrypt (config.deriveSessionKey id) nonce data = .ok sealed

/-- It encrypts everything that is short enough. -/
theorem Cryptography.seals_accepting : letI := Cryptography.seals; Cryptography.Accepting :=
  @Accepting.mk seals seals_lawful fun _ hlt => ⟨_, if_pos hlt⟩

/-- A configuration with a key of zeros. -/
def EncryptionConfig.zeros : EncryptionConfig where
  masterKey := List.replicate 32 0
  keyId := "k1"
  blockSize := 4096
  length_masterKey := rfl
  le_blockSize := by decide

end Chen
