import Chen.Backends.Mock
import Chen.Security.Backends
import Mathlib.Data.List.Nodup

/-!
# Handing an encrypted cache over

Every wrapper draws a session of its own, and the key of a block belongs to a session. The text of
a cache that one wrapper has encoded is plaintext to that wrapper only: the others cannot open it,
and take the ciphertext for a text that was never encrypted.
-/

namespace Chen

open Effect

variable {σ : Type}

/-- `encode` sets the source text, and `transfer_cache` preserves it. -/
structure Backend.CarriesText (backend : Backend σ) : Prop where
  encode : ∀ {text s cache s'}, backend.encode text s = .ok cache s' → cache.sourceText = text
  transferCache : ∀ {cache s cache' s'}, backend.transferCache cache s = .ok cache' s' →
    cache'.sourceText = cache.sourceText

/-- Scripted backends carry the text of a cache. -/
theorem Script.backend_carriesText : (Script.backend {} : Backend σ).CarriesText where
  encode h := by
    cases h
    rfl
  transferCache h := by
    cases h
    rfl

/-- The mock backend carries the text, in caches of every shape. -/
theorem MockBackend.carriesText [Hashlib] [Unicode] (mock : MockBackend) :
    (mock.backend : Backend σ).CarriesText where
  encode {text _ _ _} h := by
    have hencode := (liftExcept_eq_ok (r := mock.encode text)).mp h
    obtain ⟨cache, hcache, htext⟩ := mock.encode_ok text
    rw [hcache] at hencode
    cases hencode.1
    exact htext
  transferCache {cache _ _ _} h := by
    have htransfer := (liftExcept_eq_ok (r := mock.transferCache cache)).mp h
    obtain ⟨cache', hcache', htext⟩ := mock.transferCache_ok cache
    rw [hcache'] at htransfer
    cases htransfer.1
    exact htext

/-! ## Chains of wrappers -/

/-- What `wrap_with_encryption` makes of an untrusted backend if no session is given. -/
structure EncryptedBackend.Wraps (wrapper : EncryptedBackend σ) (backend : Backend σ)
    (config : EncryptionConfig) : Prop where
  inner : wrapper.inner = backend
  encryptor : wrapper.encryptor = ⟨config⟩
  decryptor : wrapper.decryptor = .ofConfig config
  length_sessionId : wrapper.sessionId.length = 16
  skipEncryption : wrapper.skipEncryption = false

/-- A wrapper has the backend that it was given. -/
theorem wrapWithEncryption_wraps [Unicode] {backend : Backend σ} {config : EncryptionConfig}
    {skipIfTrusted : Bool} {trustedNames : List String} {wrapper : EncryptedBackend σ}
    {entropy entropy' : Entropy}
    (h : wrapWithEncryption backend config none skipIfTrusted trustedNames entropy =
      .ok (.encrypted wrapper) entropy') : wrapper.Wraps backend config := by
  simp only [wrapWithEncryption] at h
  split at h
  case isTrue => cases h
  case isFalse =>
    obtain ⟨sessionId, entropy₁, hdraw, hpure⟩ := bind_eq_ok.mp h
    cases hdraw
    cases hpure
    exact ⟨rfl, rfl, rfl, entropy.length_draw _ _, rfl⟩

/-- The wrappers of a chain, one for each backend. -/
theorem chain_wraps [Unicode] {backends : List (Backend σ)} {config : EncryptionConfig}
    {skipIfTrusted : Bool} {trustedNames : List String} {chain : List (EncryptedBackend σ)}
    {entropy entropy' : Entropy}
    (h : backends.mapM (wrapWithEncryption · config none skipIfTrusted trustedNames) entropy =
      .ok (chain.map .encrypted) entropy') :
    List.Forall₂ (fun backend wrapper => wrapper.Wraps backend config) backends chain := by
  have hwrapped := forall₂_of_mapM
    (R := fun backend wrapped => ∀ wrapper, wrapped = .encrypted wrapper →
      wrapper.Wraps backend config)
    (fun backend s wrapped s' hrun wrapper heq => wrapWithEncryption_wraps (heq ▸ hrun)) h
  rw [List.forall₂_map_right_iff] at hwrapped
  exact hwrapped.imp fun backend wrapper hwraps => hwraps wrapper rfl

section Opening

variable [Cryptography]

/-- The cache has come from `cache` by transfers of the chain's backends. -/
inductive Handed (chain : List (EncryptedBackend σ)) (cache : KVCache) : KVCache → Prop
  | start : Handed chain cache cache
  | transfer {wrapper : EncryptedBackend σ} {cache' cache'' : KVCache} {s s' : σ × Entropy} :
      Handed chain cache cache' → wrapper ∈ chain →
      wrapper.toBackend.transferCache cache' s = .ok cache'' s' → Handed chain cache cache''

/-- A cache keeps its text along the chain, if the backends carry it. -/
theorem Handed.sourceText {chain : List (EncryptedBackend σ)} {cache cache' : KVCache}
    (h : Handed chain cache cache') (hcarries : ∀ wrapper ∈ chain, wrapper.inner.CarriesText) :
    cache'.sourceText = cache.sourceText := by
  induction h with
  | start => rfl
  | transfer hhanded hmem htransfer ih =>
    obtain ⟨hinner, -⟩ := onFirst_eq_ok.mp htransfer
    exact ((hcarries _ hmem).transferCache hinner).trans ih

/-! ## Who can open a cache -/

namespace EncryptedBackend

variable {config : EncryptionConfig} {a b : EncryptedBackend σ} {backend backend' : Backend σ}

/-- The text of an encoded cache is the prompt's block in Base64. -/
theorem Wraps.encode_spec (ha : a.Wraps backend config) (hcarries : backend.CarriesText)
    {prompt : String} {s s' : σ × Entropy} {cache : KVCache}
    (h : a.toBackend.encode prompt s = .ok cache s') :
    ∃ (block : EncryptedBlock) (bytes : Bytes),
      block.Seals config a.sessionId (Str.utf8 prompt) ∧ block.serialize = .ok bytes ∧
        cache.sourceText = Base64.b64encode bytes := by
  obtain ⟨encryptedPrompt, s₁, hencrypt, hinner⟩ := bind_eq_ok.mp h
  obtain ⟨hcipher, -⟩ := onSecond_eq_ok.mp hencrypt
  obtain ⟨hencode, -⟩ := onFirst_eq_ok.mp hinner
  obtain ⟨block, bytes, hseals, hserialize, hciphertext⟩ :=
    encryptText_spec ha.skipEncryption hcipher
  rw [ha.encryptor] at hseals
  rw [ha.inner] at hencode
  exact ⟨block, bytes, hseals, hserialize, (hcarries.encode hencode).trans hciphertext⟩

/-- The wrapper that has encrypted a text decrypts it. -/
theorem Wraps.decryptText_own (ha : a.Wraps backend config) (hlaws : Cryptography.Lawful)
    {text : String} {block : EncryptedBlock} {bytes : Bytes}
    (hseals : block.Seals config a.sessionId (Str.utf8 text))
    (hserialize : block.serialize = .ok bytes) :
    a.decryptText (Base64.b64encode bytes) = text := by
  have hdecrypt : a.decryptor.decryptText block a.sessionId = .ok text := by
    rw [ha.decryptor, Decryptor.decryptText,
      hseals.decrypt_eq_ok hlaws (Decryptor.ofConfig_get config) rfl]
    exact Str.decodeUtf8_utf8 text
  rw [decryptText_b64encode ha.skipEncryption hserialize, hdecrypt]

/-- A wrapper with another session returns the ciphertext. -/
theorem Wraps.decryptText_other (ha : a.Wraps backend config) (hb : b.Wraps backend' config)
    (hideal : Cryptography.Ideal) (hne : a.sessionId ≠ b.sessionId) {plaintext : Bytes}
    {block : EncryptedBlock} {bytes : Bytes} (hseals : block.Seals config a.sessionId plaintext)
    (hserialize : block.serialize = .ok bytes) :
    b.decryptText (Base64.b64encode bytes) = Base64.b64encode bytes := by
  obtain ⟨e, hreject⟩ := hseals.decrypt_eq_error hideal (Decryptor.ofConfig_get config)
    ha.length_sessionId hb.length_sessionId hne
  have hdecrypt : b.decryptor.decryptText block b.sessionId = .error e := by
    rw [hb.decryptor, Decryptor.decryptText, hreject]
    rfl
  rw [decryptText_b64encode hb.skipEncryption hserialize, hdecrypt]

/-- A ciphertext is longer than its text. -/
theorem length_lt_ciphertext (hlaws : Cryptography.Lawful) {text : String} {sessionId : Bytes}
    {block : EncryptedBlock} {bytes : Bytes}
    (hseals : block.Seals config sessionId (Str.utf8 text))
    (hserialize : block.serialize = .ok bytes) :
    text.length < (Base64.b64encode bytes).length := by
  calc text.length ≤ (Str.utf8 text).length := Str.length_le_utf8 text
    _ = block.ciphertext.length := (hseals.length_ciphertext hlaws).symm
    _ < bytes.length := by rw [EncryptedBlock.length_serialize hserialize]; omega
    _ ≤ (Base64.b64encode bytes).length := Base64.le_length_b64encode bytes

/-- The text of an encoded cache is decrypted by the wrapper that has encoded it and by no wrapper
with another session. -/
theorem Wraps.decryptText_encoded_iff (ha : a.Wraps backend config) (hb : b.Wraps backend' config)
    (hideal : Cryptography.Ideal) (hcarries : backend.CarriesText) {prompt : String}
    {s s' : σ × Entropy} {cache : KVCache} (h : a.toBackend.encode prompt s = .ok cache s') :
    b.decryptText cache.sourceText = prompt ↔ a.sessionId = b.sessionId := by
  obtain ⟨block, bytes, hseals, hserialize, htext⟩ := ha.encode_spec hcarries h
  rw [htext]
  constructor
  · intro hprompt
    by_contra hne
    -- the ciphertext would be the prompt, but it is longer
    rw [ha.decryptText_other hb hideal hne hseals hserialize] at hprompt
    have hlen := length_lt_ciphertext hideal.toLawful hseals hserialize
    rw [hprompt] at hlen
    exact lt_irrefl _ hlen
  · intro heq
    rw [heq] at hseals
    exact hb.decryptText_own hideal.toLawful hseals hserialize

end EncryptedBackend

/-- Along a chain of wrappers, the text of a cache decrypts to the prompt at the wrapper that has
encoded it and at no other one. -/
theorem decryptText_handed_iff [Unicode] (hideal : Cryptography.Ideal)
    (backends : List (Backend σ)) (hcarries : ∀ backend ∈ backends, backend.CarriesText)
    (config : EncryptionConfig) (skipIfTrusted : Bool) (trustedNames : List String)
    (chain : List (EncryptedBackend σ)) (entropy entropy' : Entropy)
    (hwrap : backends.mapM (wrapWithEncryption · config none skipIfTrusted trustedNames) entropy =
      .ok (chain.map .encrypted) entropy')
    (hsessions : (chain.map (·.sessionId)).Nodup) (i j : Fin chain.length) (prompt : String)
    (s s' : σ × Entropy) (cache cache' : KVCache)
    (hencode : chain[i].toBackend.encode prompt s = .ok cache s')
    (hhanded : Handed chain cache cache') :
    chain[j].decryptText cache'.sourceText = prompt ↔ j = i := by
  have hwraps := chain_wraps hwrap
  have hget : ∀ k : Fin chain.length, ∃ backend ∈ backends, chain[k].Wraps backend config := by
    intro k
    have hk : k.val < backends.length := by
      rw [hwraps.length_eq]
      exact k.isLt
    exact ⟨backends[k.val], List.getElem_mem hk, hwraps.get hk k.isLt⟩
  have hinner : ∀ wrapper ∈ chain, wrapper.inner.CarriesText := by
    intro wrapper hmem
    obtain ⟨k, hk, rfl⟩ := List.getElem_of_mem hmem
    obtain ⟨backend, hbackend, hwrapsk⟩ := hget ⟨k, hk⟩
    rw [show chain[k].inner = backend from hwrapsk.inner]
    exact hcarries backend hbackend
  obtain ⟨backend, hbackend, hi⟩ := hget i
  obtain ⟨backend', -, hj⟩ := hget j
  rw [hhanded.sourceText hinner,
    hi.decryptText_encoded_iff hj hideal (hcarries backend hbackend) hencode]
  -- distinct places of the chain have distinct sessions
  constructor
  · intro hsession
    have hplace : ∀ k : Fin chain.length, k.val < (chain.map (·.sessionId)).length := by simp
    have hi' := hplace i
    have hj' := hplace j
    have hsame : (chain.map (·.sessionId))[j.val] = (chain.map (·.sessionId))[i.val] := by
      rw [List.getElem_map, List.getElem_map]
      exact hsession.symm
    exact Fin.ext ((List.Nodup.getElem_inj_iff hsessions).mp hsame)
  · rintro rfl
    rfl

end Opening

section Examples

local instance sealingHandoff : Cryptography := .seals

local instance asciiHandoff : Unicode := .ascii

/-- The wrapper that draws its session by the given call. -/
def EncryptedBackend.drawn (call : ℕ) : EncryptedBackend Unit where
  inner := Script.backend {}
  encryptor := ⟨.zeros⟩
  decryptor := .ofConfig .zeros
  sessionId := List.replicate 16 (UInt8.ofNat call)

/-- Two wrappers of one configuration. -/
theorem EncryptedBackend.wrap_pair :
    [Script.backend {}, Script.backend {}].mapM
        (wrapWithEncryption · .zeros none true ["mock"]) .counter =
      .ok ([EncryptedBackend.drawn 0, EncryptedBackend.drawn 1].map .encrypted)
        { Entropy.counter with used := 2 } := rfl

/-- A wrapper over a scripted backend encodes a text. -/
theorem EncryptedBackend.encode_drawn : ∃ cache s',
    (EncryptedBackend.drawn 0).toBackend.encode "hi" ((), .counter) = .ok cache s' := by
  obtain ⟨cache, s', h, -⟩ := Returned.exists (P := fun _ _ => True)
    (r := (EncryptedBackend.drawn 0).toBackend.encode "hi" ((), .counter)) (by decide)
  exact ⟨cache, s', h⟩

/-- Two scripted backends carry texts. -/
theorem scripts_carryText :
    ∀ backend ∈ [(Script.backend {} : Backend Unit), Script.backend {}], backend.CarriesText := by
  intro backend hbackend
  have heq : backend = Script.backend {} := by simpa using hbackend
  rw [heq]
  exact Script.backend_carriesText

/-- The first of two wrappers opens what it has encoded. -/
theorem decryptText_handed_own : ∃ cache s',
    (EncryptedBackend.drawn 0).toBackend.encode "hi" ((), .counter) = .ok cache s' ∧
      (EncryptedBackend.drawn 0).decryptText cache.sourceText = "hi" := by
  obtain ⟨cache, s', h⟩ := EncryptedBackend.encode_drawn
  refine ⟨cache, s', h, ?_⟩
  exact (decryptText_handed_iff Cryptography.seals_ideal _ scripts_carryText .zeros true ["mock"]
    _ .counter _ EncryptedBackend.wrap_pair (by decide) 0 0 "hi" _ s' cache cache h .start).mpr rfl

/-- The second one gets the ciphertext for the text. -/
theorem decryptText_handed_other :
    ([Script.backend {}, Script.backend {}].mapM
        (wrapWithEncryption · .zeros none true ["mock"]) .counter =
      .ok ([EncryptedBackend.drawn 0, EncryptedBackend.drawn 1].map .encrypted)
        { Entropy.counter with used := 2 }) ∧
    ([EncryptedBackend.drawn 0, EncryptedBackend.drawn 1].map (·.sessionId)).Nodup ∧
    ∃ cache s', (EncryptedBackend.drawn 0).toBackend.encode "hi" ((), .counter) = .ok cache s' ∧
      (EncryptedBackend.drawn 1).decryptText cache.sourceText = cache.sourceText ∧
      cache.sourceText ≠ "hi" := by
  have hwraps : ∀ call, (EncryptedBackend.drawn call).Wraps (Script.backend {}) .zeros :=
    fun call => ⟨rfl, rfl, rfl, rfl, rfl⟩
  refine ⟨EncryptedBackend.wrap_pair, by decide, ?_⟩
  obtain ⟨cache, s', h⟩ := EncryptedBackend.encode_drawn
  obtain ⟨block, bytes, hseals, hserialize, htext⟩ :=
    (hwraps 0).encode_spec Script.backend_carriesText h
  refine ⟨cache, s', h, ?_, ?_⟩
  · rw [htext]
    exact (hwraps 0).decryptText_other (hwraps 1) Cryptography.seals_ideal (by decide) hseals
      hserialize
  · rw [htext]
    intro heq
    have hlen := EncryptedBackend.length_lt_ciphertext Cryptography.seals_lawful hseals hserialize
    rw [heq] at hlen
    exact lt_irrefl _ hlen

end Examples

end Chen
