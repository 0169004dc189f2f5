import Chen.Library.Machine
import Chen.Security.Crypto

/-!
# Derived keys that are kept

The decryptor with its dictionary of derived keys. An entry is never dropped, so a decryptor goes on
with the master key under which it first met an identifier and a session, also after the identifier
was registered again.
-/

namespace Chen

open Effect

/-- `Decryptor`, with the session keys that it has derived. -/
structure CachingDecryptor where
  keys : Dict String EncryptionConfig
  sessionKeys : Dict (String × Bytes) Bytes

/-- A call on a decryptor. -/
inductive DecryptorCall where
  | addKey (config : EncryptionConfig)
  | decrypt (block : EncryptedBlock) (sessionId : Bytes)

namespace CachingDecryptor

/-- The constructor. -/
def ofConfig (config : EncryptionConfig) : CachingDecryptor := ⟨[(config.keyId, config)], []⟩

/-- `add_key`. -/
def addKey (decryptor : CachingDecryptor) (config : EncryptionConfig) : CachingDecryptor :=
  { decryptor with keys := Dict.set decryptor.keys config.keyId config }

/-- A decryptor that has not derived any key yet. -/
def fresh (keys : Dict String EncryptionConfig) : CachingDecryptor := ⟨keys, []⟩

variable [Cryptography]

/-- `_get_session_key`. -/
def getSessionKey (keyId : String) (sessionId : Bytes) : EStateM Exn CachingDecryptor Bytes := do
  let self ← get
  match Dict.get? self.sessionKeys (keyId, sessionId) with
  -- the configurations are not looked at
  | some sessionKey => pure sessionKey
  | none =>
    match Dict.get? self.keys keyId with
    | none => throw (.crypto s!"unknown key_id: {keyId}")
    | some config =>
      let sessionKey := config.deriveSessionKey sessionId
      set { self with sessionKeys := Dict.set self.sessionKeys (keyId, sessionId) sessionKey }
      pure sessionKey

/-- What AES-GCM makes of a block under a session key. -/
def decryptWith (block : EncryptedBlock) (key : Bytes) : Except Exn Bytes :=
  match Cryptography.aesgcmDecrypt key block.nonce (block.ciphertext ++ block.tag) with
  | .ok plaintext => .ok plaintext
  | .error _ => .error (.crypto "decryption failed (wrong key or tampered data)")

/-- `decrypt`. -/
def decrypt (block : EncryptedBlock) (sessionId : Bytes) : EStateM Exn CachingDecryptor Bytes := do
  let key ← getSessionKey block.keyId sessionId
  liftExcept (decryptWith block key)

/-- A call: its result, if it has one, and the decryptor that it leaves. -/
def act (decryptor : CachingDecryptor) :
    DecryptorCall → Option (Except Exn Bytes) × CachingDecryptor
  | .addKey config => (none, decryptor.addKey config)
  | .decrypt block sessionId =>
    (some (outcome (decrypt block sessionId decryptor)), final (decrypt block sessionId decryptor))

/-- In a series of calls on a new decryptor, each one gives what it would give on a decryptor with
the same configurations that has not derived any key yet. -/
def Transparent (config : EncryptionConfig) (calls : List DecryptorCall) : Prop :=
  Machine.EachStep (Machine.next act)
    (fun decryptor call => (decryptor.act call).1 = ((fresh decryptor.keys).act call).1)
    (ofConfig config) calls

instance (config : EncryptionConfig) (calls : List DecryptorCall) :
    Decidable (Transparent config calls) :=
  inferInstanceAs (Decidable (Machine.EachStep _ _ _ _))

/-! ## One call -/

/-- A session key that was kept is used again. -/
theorem decrypt_of_kept {decryptor : CachingDecryptor} {block : EncryptedBlock}
    {sessionId key : Bytes}
    (h : Dict.get? decryptor.sessionKeys (block.keyId, sessionId) = some key) :
    decrypt block sessionId decryptor =
      (liftExcept (decryptWith block key) : EStateM Exn CachingDecryptor Bytes) decryptor := by
  have hkey : getSessionKey block.keyId sessionId decryptor = .ok key decryptor := by
    rw [getSessionKey, get_bind_apply, h]
    rfl
  rw [decrypt, bind_ok hkey]

/-- A block under an unknown key is refused. -/
theorem decrypt_of_unknown {decryptor : CachingDecryptor} {block : EncryptedBlock}
    {sessionId : Bytes}
    (h : Dict.get? decryptor.sessionKeys (block.keyId, sessionId) = none)
    (hkeys : Dict.get? decryptor.keys block.keyId = none) :
    decrypt block sessionId decryptor =
      .error (.crypto s!"unknown key_id: {block.keyId}") decryptor := by
  have hkey : getSessionKey block.keyId sessionId decryptor =
      .error (.crypto s!"unknown key_id: {block.keyId}") decryptor := by
    rw [getSessionKey, get_bind_apply, h]
    simp only [hkeys]
    rfl
  rw [decrypt, bind_error hkey]

/-- A session key that was not kept is derived, and kept. -/
theorem decrypt_of_derived {decryptor : CachingDecryptor} {block : EncryptedBlock}
    {sessionId : Bytes} {config : EncryptionConfig}
    (h : Dict.get? decryptor.sessionKeys (block.keyId, sessionId) = none)
    (hkeys : Dict.get? decryptor.keys block.keyId = some config) :
    decrypt block sessionId decryptor =
      (liftExcept (decryptWith block (config.deriveSessionKey sessionId)) :
        EStateM Exn CachingDecryptor Bytes)
      { decryptor with
        sessionKeys := Dict.set decryptor.sessionKeys (block.keyId, sessionId)
          (config.deriveSessionKey sessionId) } := by
  have hkey : getSessionKey block.keyId sessionId decryptor =
      .ok (config.deriveSessionKey sessionId) { decryptor with
        sessionKeys := Dict.set decryptor.sessionKeys (block.keyId, sessionId)
          (config.deriveSessionKey sessionId) } := by
    rw [getSessionKey, get_bind_apply, h]
    simp only [hkeys]
    rfl
  rw [decrypt, bind_ok hkey]

/-- What the library opens is returned. -/
theorem decryptWith_of_ok {block : EncryptedBlock} {key plaintext : Bytes}
    (h : Cryptography.aesgcmDecrypt key block.nonce (block.ciphertext ++ block.tag) =
      .ok plaintext) : decryptWith block key = .ok plaintext := by
  rw [decryptWith, h]

/-- What it refuses is an error of decryption. -/
theorem decryptWith_of_error {block : EncryptedBlock} {key : Bytes} {e : Exn}
    (h : Cryptography.aesgcmDecrypt key block.nonce (block.ciphertext ++ block.tag) = .error e) :
    decryptWith block key =
      .error (.crypto "decryption failed (wrong key or tampered data)") := by
  rw [decryptWith, h]

/-- A decryptor that has not derived any key yet decrypts as one without a dictionary does. -/
theorem outcome_decrypt_fresh (keys : Dict String EncryptionConfig) (block : EncryptedBlock)
    (sessionId : Bytes) :
    outcome (decrypt block sessionId (fresh keys)) = Decryptor.decrypt ⟨keys⟩ block sessionId := by
  rw [Decryptor.decrypt]
  cases hkeys : Dict.get? keys block.keyId with
  | none => rw [decrypt_of_unknown rfl hkeys]; rfl
  | some config => rw [decrypt_of_derived rfl hkeys, outcome_liftExcept]; rfl

end CachingDecryptor

/-! ## The configurations behind the derived keys -/

/-- The registered configurations, and for each identifier and session that was met the
configuration that was registered then. -/
structure KeyLedger where
  keys : Dict String EncryptionConfig
  met : Dict (String × Bytes) EncryptionConfig

namespace KeyLedger

/-- The ledger of a new decryptor. -/
def start (config : EncryptionConfig) : KeyLedger := ⟨[(config.keyId, config)], []⟩

/-- A call enters a configuration, or a session when it is met for the first time. -/
def step (ledger : KeyLedger) : DecryptorCall → KeyLedger
  | .addKey config => { ledger with keys := Dict.set ledger.keys config.keyId config }
  | .decrypt block sessionId =>
    match Dict.get? ledger.met (block.keyId, sessionId), Dict.get? ledger.keys block.keyId with
    | none, some config =>
      { ledger with met := Dict.set ledger.met (block.keyId, sessionId) config }
    | _, _ => ledger

/-- The configuration that is registered now and the one that was registered when the session was
first met are related by `R`. -/
def Compares (R : EncryptedBlock → Bytes → EncryptionConfig → EncryptionConfig → Prop)
    (ledger : KeyLedger) : DecryptorCall → Prop
  | .addKey _ => True
  | .decrypt block sessionId =>
    ∀ met ∈ Dict.get? ledger.met (block.keyId, sessionId),
      ∀ now ∈ Dict.get? ledger.keys block.keyId, R block sessionId met now

/-- An identifier still has the master key that it had when the session was first met. -/
def Current : KeyLedger → DecryptorCall → Prop :=
  Compares fun _ _ met now => met.masterKey = now.masterKey

/-- A block is opened alike under the two configurations. -/
def Alike [Cryptography] : KeyLedger → DecryptorCall → Prop :=
  Compares fun block sessionId met now =>
    CachingDecryptor.decryptWith block (met.deriveSessionKey sessionId) =
      CachingDecryptor.decryptWith block (now.deriveSessionKey sessionId)

/-- The identifiers of the sessions that were met are registered. -/
def Registered (ledger : KeyLedger) : Prop :=
  ∀ keyId sessionId config, Dict.get? ledger.met (keyId, sessionId) = some config →
    Dict.get? ledger.keys keyId ≠ none

theorem registered_start (config : EncryptionConfig) : (start config).Registered := nofun

/-- Identifiers are never removed. -/
theorem Registered.step {ledger : KeyLedger} (h : ledger.Registered) (call : DecryptorCall) :
    (ledger.step call).Registered := by
  cases call with
  | addKey config =>
    intro keyId sessionId met hmet
    show Dict.get? (Dict.set ledger.keys config.keyId config) keyId ≠ none
    by_cases hid : keyId = config.keyId
    · rw [hid, Dict.get?_set_self]
      exact Option.some_ne_none _
    · rw [Dict.get?_set_of_ne _ hid]
      exact h keyId sessionId met hmet
  | decrypt block sessionId =>
    rw [KeyLedger.step]
    split
    case h_2 => exact h
    case h_1 config _ hkeys =>
      intro keyId sessionId' met hmet
      by_cases hid : (keyId, sessionId') = (block.keyId, sessionId)
      · cases hid
        show Dict.get? ledger.keys block.keyId ≠ none
        rw [hkeys]
        exact Option.some_ne_none _
      · rw [Dict.get?_set_of_ne _ hid] at hmet
        exact h keyId sessionId' met hmet

variable [Cryptography]

/-- The decryptor with this ledger. -/
def toDecryptor (ledger : KeyLedger) : CachingDecryptor where
  keys := ledger.keys
  sessionKeys := ledger.met.map fun p => (p.1, p.2.deriveSessionKey p.1.2)

/-- A session key is derived from the master key that was met first. -/
theorem get?_sessionKeys (ledger : KeyLedger) (keyId : String) (sessionId : Bytes) :
    Dict.get? ledger.toDecryptor.sessionKeys (keyId, sessionId) =
      (Dict.get? ledger.met (keyId, sessionId)).map (·.deriveSessionKey sessionId) :=
  Dict.get?_map_items ledger.met (fun k config => config.deriveSessionKey k.2) (keyId, sessionId)

/-- A decryptor does what its ledger says. -/
theorem next_toDecryptor (ledger : KeyLedger) (call : DecryptorCall) :
    Machine.next CachingDecryptor.act ledger.toDecryptor call = (ledger.step call).toDecryptor := by
  cases call with
  | addKey config => rfl
  | decrypt block sessionId =>
    have hkept := ledger.get?_sessionKeys block.keyId sessionId
    show final (CachingDecryptor.decrypt block sessionId ledger.toDecryptor) = _
    rw [step]
    cases hmet : Dict.get? ledger.met (block.keyId, sessionId) with
    | some met =>
      rw [hmet, Option.map_some] at hkept
      rw [CachingDecryptor.decrypt_of_kept hkept, final_liftExcept]
    | none =>
      rw [hmet, Option.map_none] at hkept
      cases hkeys : Dict.get? ledger.keys block.keyId with
      | none => rw [CachingDecryptor.decrypt_of_unknown hkept hkeys]; rfl
      | some config =>
        rw [CachingDecryptor.decrypt_of_derived hkept hkeys, final_liftExcept]
        exact congrArg (CachingDecryptor.mk ledger.keys) (Dict.set_map_items ledger.met
          (fun k config => config.deriveSessionKey k.2) (block.keyId, sessionId) config)

/-- The kept key makes no difference exactly when the block is opened alike under it and under the
key that would be derived now. -/
theorem answer_eq_iff {ledger : KeyLedger} (h : ledger.Registered) (call : DecryptorCall) :
    (ledger.toDecryptor.act call).1 =
        ((CachingDecryptor.fresh ledger.toDecryptor.keys).act call).1 ↔ ledger.Alike call := by
  cases call with
  | addKey config => exact iff_of_true rfl trivial
  | decrypt block sessionId =>
    have hkept := ledger.get?_sessionKeys block.keyId sessionId
    rw [CachingDecryptor.act, CachingDecryptor.act, Option.some.injEq, Alike, Compares]
    show _ = outcome (CachingDecryptor.decrypt block sessionId (.fresh ledger.keys)) ↔ _
    -- the pair is new to the cache, or its session key was derived before
    cases hmet : Dict.get? ledger.met (block.keyId, sessionId) with
    | none =>
      rw [hmet, Option.map_none] at hkept
      refine iff_of_true ?_ nofun
      cases hkeys : Dict.get? ledger.keys block.keyId with
      | none =>
        rw [CachingDecryptor.decrypt_of_unknown hkept hkeys,
          CachingDecryptor.decrypt_of_unknown rfl hkeys]
        rfl
      | some config =>
        rw [CachingDecryptor.decrypt_of_derived hkept hkeys,
          CachingDecryptor.decrypt_of_derived rfl hkeys, outcome_liftExcept, outcome_liftExcept]
    | some met =>
      rw [hmet, Option.map_some] at hkept
      obtain ⟨now, hkeys⟩ := Option.ne_none_iff_exists'.mp (h _ _ _ hmet)
      rw [CachingDecryptor.decrypt_of_kept hkept, CachingDecryptor.decrypt_of_derived rfl hkeys,
        outcome_liftExcept, outcome_liftExcept]
      simp [hkeys]

/-- Under one master key a block is opened alike. -/
theorem Alike.of_current {ledger : KeyLedger} {call : DecryptorCall} (h : ledger.Current call) :
    ledger.Alike call := by
  cases call with
  | addKey config => trivial
  | decrypt block sessionId =>
    intro met hmet now hnow
    rw [EncryptionConfig.deriveSessionKey, EncryptionConfig.deriveSessionKey, h met hmet now hnow]

end KeyLedger

namespace CachingDecryptor

/-- Keeping session keys is transparent if each block opens alike under the configuration that was met
first and the one at hand. -/
theorem transparent_iff_alike [Cryptography] (config : EncryptionConfig)
    (calls : List DecryptorCall) : Transparent config calls ↔
      Machine.EachStep KeyLedger.step KeyLedger.Alike (.start config) calls := by
  have himage : Transparent config calls ↔ Machine.EachStep KeyLedger.step
      (fun ledger call => (ledger.toDecryptor.act call).1 =
        ((fresh ledger.toDecryptor.keys).act call).1) (.start config) calls :=
    Machine.eachStep_image (t := KeyLedger.start config) KeyLedger.next_toDecryptor
      (P := fun decryptor call => (decryptor.act call).1 = ((fresh decryptor.keys).act call).1)
  rw [himage]
  apply Machine.eachStep_congr (I := KeyLedger.Registered)
  · exact fun _ call h => h.step call
  · exact fun _ call h => KeyLedger.answer_eq_iff h call
  · exact KeyLedger.registered_start config

/-! ## A library that tells master keys apart -/

/-- A stamp that only one master key has. -/
def stampFor (masterKey tag key : Bytes) : Bytes :=
  if key = masterKey then tag else tag.map (· + 1)

/-- A stamp is as long as the tag. -/
theorem length_stampFor (masterKey tag key : Bytes) :
    (stampFor masterKey tag key).length = tag.length := by
  rw [stampFor]
  split
  · rfl
  · exact List.length_map _

/-- Another key has another stamp. -/
theorem stampFor_of_ne {masterKey tag key : Bytes} (htag : tag ≠ []) (h : key ≠ masterKey) :
    tag ≠ stampFor masterKey tag key := by
  rw [stampFor, if_neg h]
  cases tag with
  | nil => exact absurd rfl htag
  | cons b rest =>
    intro heq
    exact absurd (List.cons.inj heq).1 (by simp)

/-- A library in which a block is genuine under one master key, in every session. -/
@[reducible] def genuine (masterKey tag : Bytes) : Cryptography :=
  .stamping (fun _ _ keyMaterial => keyMaterial) (stampFor masterKey tag)

/-- The block is opened under this master key and no other one. -/
theorem decryptWith_genuine (block : EncryptedBlock) (masterKey : Bytes)
    (config : EncryptionConfig) (sessionId : Bytes) :
    letI := genuine masterKey block.tag
    decryptWith block (config.deriveSessionKey sessionId) = .ok block.ciphertext ↔
      config.masterKey = masterKey := by
  let _ := genuine masterKey block.tag
  have htag : block.tag ≠ [] := by
    intro hnil
    have hlen := block.length_tag
    rw [hnil] at hlen
    exact absurd hlen (by decide)
  have hopen : Cryptography.aesgcmDecrypt config.masterKey block.nonce
      (block.ciphertext ++ block.tag) =
        if block.tag = stampFor masterKey block.tag config.masterKey then .ok block.ciphertext
        else .error (.other "InvalidTag" "") :=
    Cryptography.stamping_decrypt block.length_tag _ _ _
  by_cases hkey : config.masterKey = masterKey
  · rw [if_pos (by rw [stampFor, if_pos hkey])] at hopen
    exact iff_of_true (decryptWith_of_ok hopen) hkey
  · rw [if_neg (stampFor_of_ne htag hkey)] at hopen
    refine iff_of_false (fun hok => ?_) hkey
    cases hok.symm.trans (decryptWith_of_error hopen)

/-- The kept session keys make no difference if and only if every block is opened alike under the
configuration that was registered when its session was first met and under the present one. Whatever
the library, they make none if and only if these two always have the same master key. -/
theorem transparent_iff (config : EncryptionConfig) (calls : List DecryptorCall) :
    (∀ _ : Cryptography, Transparent config calls ↔
      Machine.EachStep KeyLedger.step KeyLedger.Alike (.start config) calls) ∧
    ((∀ _ : Cryptography, Cryptography.Lawful → Transparent config calls) ↔
      Machine.EachStep KeyLedger.step KeyLedger.Current (.start config) calls) := by
  refine ⟨fun _ => transparent_iff_alike config calls, ?_, ?_⟩
  · intro h
    rw [Machine.eachStep_iff]
    intro pre call hcall
    cases call with
    | addKey config => trivial
    | decrypt block sessionId =>
      intro met hmet now hnow
      -- the block is genuine under the present master key
      let _ := genuine now.masterKey block.tag
      have hlawful : Cryptography.Lawful := Cryptography.stamping_lawful fun key =>
        (length_stampFor _ _ key).trans block.length_tag
      have halike := Machine.eachStep_iff.mp ((transparent_iff_alike config calls).mp
        (h _ hlawful)) pre (.decrypt block sessionId) hcall met hmet now hnow
      have hopened := (decryptWith_genuine block now.masterKey now sessionId).mpr rfl
      exact (decryptWith_genuine block now.masterKey met sessionId).mp (halike.trans hopened)
  · intro h _ _
    exact (transparent_iff_alike config calls).mpr (h.imp fun _ _ => KeyLedger.Alike.of_current)

/-- A configuration whose key repeats a byte. It goes by the empty identifier. -/
def repeating (byte : UInt8) : EncryptionConfig where
  masterKey := List.replicate 32 byte
  keyId := ""
  blockSize := 4096
  length_masterKey := rfl
  le_blockSize := EncryptionConfig.le_defaultBlockSize

/-- An environment with this key, and without an identifier. -/
def environment (byte : UInt8) (name : String) : Option String :=
  if name = "CHEN_MASTER_KEY" then some (Base64.b64encode (List.replicate 32 byte)) else none

/-- An empty text under this key. -/
def emptyBlock (byte : UInt8) : EncryptedBlock where
  keyId := ""
  nonce := List.replicate 12 0
  ciphertext := []
  tag := List.replicate 16 byte
  length_nonce := EncryptedBlock.length_zeroNonce
  length_tag := rfl

/-- A library whose session keys are the master key, and whose tags are the beginning of the key. -/
@[reducible] def beginnings : Cryptography :=
  .stamping (fun _ _ keyMaterial => keyMaterial) fun key => (key ++ List.replicate 16 0).take 16

/-- A key from the environment is replaced by another one. What was sealed under the new key is then
rejected in a session that was met under the old one. -/
theorem replaced_key_stale :
    letI := beginnings
    Cryptography.Lawful ∧
    (EncryptionConfig.fromEnv (environment 0) .counter = .ok (repeating 0) .counter ∧
      EncryptionConfig.fromEnv (environment 1) .counter = .ok (repeating 1) .counter) ∧
    ((emptyBlock 0).Seals (repeating 0) [7] [] ∧ (emptyBlock 1).Seals (repeating 1) [7] []) ∧
    ¬Transparent (repeating 0)
      [.decrypt (emptyBlock 0) [7], .addKey (repeating 1), .decrypt (emptyBlock 1) [7]] := by
  let _ := beginnings
  have hlawful : Cryptography.Lawful := Cryptography.stamping_lawful Cryptography.length_sealsTag
  refine ⟨hlawful, ⟨?_, ?_⟩, ⟨⟨rfl, by decide⟩, ⟨rfl, by decide⟩⟩,
    by decide⟩
  · exact EncryptionConfig.fromEnv_unnamed (repeating 0) rfl rfl _
  · exact EncryptionConfig.fromEnv_unnamed (repeating 1) rfl rfl _

end CachingDecryptor

end Chen
