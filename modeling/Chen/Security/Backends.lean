import Chen.Backends.Base
import Chen.Python.Base64
import Chen.Security.Crypto

/-!
# Encrypted backends

A wrapper that encrypts the texts it hands to an inner backend and decrypts what comes back. What
the wrapper does with a cipher does not depend on which cipher it is.
-/

namespace Chen

open Effect

/-- How a wrapper turns texts into ciphertexts and back, over a state `κ`. -/
structure TextCipher (κ : Type) where
  encryptText : String → EStateM Exn κ String
  decryptText : κ → String → String

namespace TextCipher

variable {σ κ : Type} (cipher : TextCipher κ) (inner : Backend σ)

/-- `generate`. -/
def generate (prompt : String) (maxTokens : ℤ) : EStateM Exn (σ × κ) String := do
  let encryptedPrompt ← onSecond (cipher.encryptText prompt)
  let rawOutput ← onFirst (inner.generate encryptedPrompt maxTokens)
  pure (cipher.decryptText (← get).2 rawOutput)

/-- `encode`. -/
def encode (prompt : String) : EStateM Exn (σ × κ) KVCache := do
  let encryptedPrompt ← onSecond (cipher.encryptText prompt)
  onFirst (inner.encode encryptedPrompt)

/-- `decode`: the inner backend gets the cache with its text decrypted. -/
def decode (cache : KVCache) (maxTokens : ℤ) : EStateM Exn (σ × κ) String := do
  let decryptedText := cipher.decryptText (← get).2 cache.sourceText
  let rawOutput ← onFirst (inner.decode { cache with sourceText := decryptedText } maxTokens)
  pure (cipher.decryptText (← get).2 rawOutput)

/-- `transfer_cache`. -/
def transferCache (cache : KVCache) : EStateM Exn (σ × κ) KVCache :=
  onFirst (inner.transferCache cache)

/-- `count_tokens`: the inner backend counts the text as it is. -/
def countTokens (text : String) : EStateM Exn (σ × κ) ℤ :=
  match inner.countTokens with
  | some count => onFirst (count text)
  | none => pure (Str.estimateTokens text)

/-- The wrapped backend. -/
def wrap : Backend (σ × κ) where
  paramsM := inner.paramsM
  resolvedParamsM := .absent
  capabilities := { inner.capabilities with deterministic := false }
  modelId := s!"encrypted({inner.modelId})"
  generate := cipher.generate inner
  encode := cipher.encode inner
  decode := cipher.decode inner
  transferCache := transferCache inner
  countTokens := some (countTokens inner)

end TextCipher

/-- `_encrypt_text`, where a block is encrypted by `encryptBlock`: the serialized block in Base64. -/
def encryptTextWith {κ : Type} (encryptBlock : String → EStateM Exn κ EncryptedBlock)
    (text : String) : EStateM Exn κ String := do
  let block ← encryptBlock text
  let bytes ← liftExcept block.serialize
  pure (Base64.b64encode bytes)

/-- `_decrypt_text`, where a block is decrypted by `decryptBlock`: a text that cannot be decrypted is
returned as it is. -/
def decryptTextWith (decryptBlock : EncryptedBlock → Except Exn String) (text : String) : String :=
  let decrypted : Except Exn String := do
    let raw ← Base64.b64decode text
    let block ← EncryptedBlock.deserialize raw
    decryptBlock block
  match decrypted with
  | .ok plaintext => plaintext
  -- `except Exception`: a key that does not fit looks like a text that was never encrypted
  | .error _ => text

/-- `EncryptedBackend`. -/
structure EncryptedBackend (σ : Type) where
  inner : Backend σ
  encryptor : Encryptor
  decryptor : Decryptor
  sessionId : Bytes
  skipEncryption : Bool := false

namespace EncryptedBackend

variable {σ : Type} [Cryptography]

/-- `_encrypt_text`. -/
def encryptText (backend : EncryptedBackend σ) (text : String) : EStateM Exn Entropy String :=
  if backend.skipEncryption then pure text
  else encryptTextWith (backend.encryptor.encryptText · backend.sessionId) text

/-- `_decrypt_text`. -/
def decryptText (backend : EncryptedBackend σ) (text : String) : String :=
  if backend.skipEncryption then text
  else decryptTextWith (backend.decryptor.decryptText · backend.sessionId) text

/-- The cipher of the wrapper. -/
def cipher (backend : EncryptedBackend σ) : TextCipher Entropy where
  encryptText := backend.encryptText
  decryptText _ := backend.decryptText

/-- The wrapper as a backend. -/
def toBackend (backend : EncryptedBackend σ) : Backend (σ × Entropy) :=
  backend.cipher.wrap backend.inner

/-- What is encrypted is a block in Base64. -/
theorem encryptText_spec {backend : EncryptedBackend σ} (hskip : backend.skipEncryption = false)
    {text ciphertext : String} {entropy entropy' : Entropy}
    (h : backend.encryptText text entropy = .ok ciphertext entropy') :
    ∃ (block : EncryptedBlock) (bytes : Bytes),
      block.Seals backend.encryptor.config backend.sessionId (Str.utf8 text) ∧
        block.serialize = .ok bytes ∧ ciphertext = Base64.b64encode bytes := by
  rw [encryptText, if_neg (by simp [hskip]), encryptTextWith] at h
  obtain ⟨block, entropy₁, hencrypt, hrest⟩ := bind_eq_ok.mp h
  obtain ⟨bytes, entropy₂, hlift, hpure⟩ := bind_eq_ok.mp hrest
  obtain ⟨hserialize, -⟩ := liftExcept_eq_ok.mp hlift
  cases hpure
  exact ⟨block, bytes, Encryptor.encrypt_seals hencrypt, hserialize, rfl⟩

/-- A block in Base64 is decrypted if the decryptor opens the block, and else returned. -/
theorem decryptText_b64encode {backend : EncryptedBackend σ}
    (hskip : backend.skipEncryption = false) {block : EncryptedBlock} {bytes : Bytes}
    (hserialize : block.serialize = .ok bytes) :
    backend.decryptText (Base64.b64encode bytes) =
      match backend.decryptor.decryptText block backend.sessionId with
      | .ok plaintext => plaintext
      | .error _ => Base64.b64encode bytes := by
  rw [decryptText, if_neg (by simp [hskip]), decryptTextWith, Base64.b64decode_b64encode]
  show (match EncryptedBlock.deserialize bytes >>= fun block =>
      backend.decryptor.decryptText block backend.sessionId with
    | .ok plaintext => plaintext
    | .error _ => Base64.b64encode bytes) = _
  rw [EncryptedBlock.deserialize_serialize hserialize]
  rfl

end EncryptedBackend

/-! ## Wrapping -/

/-- What `wrap_with_encryption` returns. -/
inductive Wrapped (σ : Type) where
  | trusted (backend : Backend σ)
  | encrypted (backend : EncryptedBackend σ)

/-- `wrap_with_encryption`. -/
def wrapWithEncryption {σ : Type} [Unicode] (backend : Backend σ) (config : EncryptionConfig)
    (sessionId : Option Bytes := none) (skipIfTrusted : Bool := true)
    (trustedNames : List String := ["mock"]) : EStateM Exn Entropy (Wrapped σ) :=
  let backendName := Unicode.lower (String.ofList (backend.modelId.toList.takeWhile (· ≠ '-')))
  if skipIfTrusted && trustedNames.contains backendName then pure (.trusted backend)
  else do
    let sessionId ← match sessionId with
      | none | some [] => urandom 16
      | some id => pure id
    pure (.encrypted
      { inner := backend, encryptor := ⟨config⟩, decryptor := .ofConfig config, sessionId })

end Chen
