import Chen.Python.Base64
import Chen.Security.Crypto
import Mathlib.Data.List.Sort
import Mathlib.Data.String.Basic

/-!
# The key store

A directory with one file for each key and a file that names the active key. The time at which a
key was made is left out: nothing reads it.
-/

namespace Chen

open Effect

/-- `status`. -/
inductive KeyStatus where
  | active
  | retired
  | revoked
deriving DecidableEq, Repr

/-- `KeyMetadata`. -/
structure KeyMetadata where
  keyId : String
  status : KeyStatus := .active
  masterKeyB64 : String := ""
  rotationOf : Option String := none
deriving DecidableEq

namespace KeyMetadata

/-- `to_config`. -/
def toConfig (metadata : KeyMetadata) : Except Exn EncryptionConfig := do
  let masterKey ← Base64.b64decode metadata.masterKeyB64
  EncryptionConfig.create masterKey metadata.keyId

/-- `from_config`. -/
def fromConfig (config : EncryptionConfig) (rotationOf : Option String := none) : KeyMetadata where
  keyId := config.keyId
  masterKeyB64 := Base64.b64encode config.masterKey
  rotationOf := rotationOf

/-- The metadata of a configuration gives it back, with the default block size. -/
theorem toConfig_fromConfig (config : EncryptionConfig) (rotationOf : Option String) :
    (fromConfig config rotationOf).toConfig =
      .ok { config with blockSize := defaultBlockSizeBytes, le_blockSize := by decide } := by
  rw [toConfig, fromConfig, Base64.b64decode_b64encode]
  show EncryptionConfig.create config.masterKey config.keyId = _
  rw [EncryptionConfig.create, dif_pos config.length_masterKey, dif_pos (by decide)]

/-- The configuration of a key has its id. -/
theorem toConfig_keyId {metadata : KeyMetadata} {config : EncryptionConfig}
    (h : metadata.toConfig = .ok config) : config.keyId = metadata.keyId := by
  obtain ⟨masterKey, -, hcreate⟩ := except_bind_eq_ok.mp h
  exact (EncryptionConfig.create_eq_ok hcreate).2.1

end KeyMetadata

/-- The name of a key's file. -/
def keyFile (keyId : String) : String := "key_" ++ keyId ++ ".json"

/-- Different ids have different files. -/
theorem keyFile_injective : Function.Injective keyFile := by
  intro id id' h
  have hlist := congrArg String.toList h
  simp only [keyFile, String.toList_append] at hlist
  exact String.toList_inj.mp (List.append_cancel_left (List.append_cancel_right hlist))

/-- `KeyStore`: the directory, and the randomness that keys are made of. A file is named after
the key that it holds. -/
structure KeyStore where
  path : String
  files : Dict String KeyMetadata
  activeKeyId : Option String
  entropy : Entropy
  named : ∀ p ∈ files, p.1 = keyFile p.2.keyId
  nodup : (files.map Prod.fst).Nodup

namespace KeyStore

/-- An empty directory. -/
def empty (path : String) (entropy : Entropy) : KeyStore where
  path := path
  files := []
  activeKeyId := none
  entropy := entropy
  named := nofun
  nodup := .nil

/-- `_save`. -/
def save (store : KeyStore) (metadata : KeyMetadata) : KeyStore where
  path := store.path
  files := Dict.set store.files (keyFile metadata.keyId) metadata
  activeKeyId := store.activeKeyId
  entropy := store.entropy
  named := by
    intro p hp
    rcases Dict.mem_set hp with rfl | hold
    · rfl
    · exact store.named p hold
  nodup := Dict.nodup_set store.nodup _ _

/-- `load`. -/
def load (store : KeyStore) (keyId : String) : Option KeyMetadata :=
  Dict.get? store.files (keyFile keyId)

/-- `list_keys`: in the order of the files' names. -/
def listKeys (store : KeyStore) : List KeyMetadata :=
  (store.files.insertionSort fun p q => p.1 ≤ q.1).map Prod.snd

/-- `get_active`. -/
def getActive (store : KeyStore) : Option KeyMetadata :=
  match store.activeKeyId with
  -- an empty identifier counts as none
  | none | some "" => none
  | some keyId => store.load keyId

/-- A program that draws random bytes. -/
def draws {α : Type} (x : EStateM Exn Entropy α) : EStateM Exn KeyStore α := fun store =>
  match x store.entropy with
  | .ok a entropy => .ok a { store with entropy }
  | .error e entropy => .error e { store with entropy }

/-- `generate_key`. -/
def generateKey (rotationOf : Option String := none) : EStateM Exn KeyStore KeyMetadata := do
  let config ← draws EncryptionConfig.generate
  let metadata := KeyMetadata.fromConfig config rotationOf
  modify (·.save metadata)
  pure metadata

/-- The loop of `activate`: every other active key is retired. -/
def retireOther (keyId : String) (store : KeyStore) (k : KeyMetadata) : KeyStore :=
  if k.keyId ≠ keyId ∧ k.status = .active then store.save { k with status := .retired } else store

/-- `activate`. -/
def activate (keyId : String) : EStateM Exn KeyStore Unit := do
  let store ← get
  match store.load keyId with
  | none => throw (.other "KeyError" s!"key '{keyId}' not found in keystore at {store.path}")
  | some metadata =>
    -- the keys are listed before the loop, and `metadata` was loaded before it
    modify fun store => store.listKeys.foldl (retireOther keyId) store
    -- whatever the status was, also a revoked key becomes active
    modify (·.save { metadata with status := .active })
    modify fun store => { store with activeKeyId := some keyId }

/-- `rotate`. -/
def rotate : EStateM Exn KeyStore KeyMetadata := do
  let current := (← get).getActive
  let rotationOf := current.map (·.keyId)
  let newMetadata ← generateKey rotationOf
  activate newMetadata.keyId
  pure newMetadata

/-- `revoke`. -/
def revoke (keyId : String) : EStateM Exn KeyStore Unit := do
  match (← get).load keyId with
  | none => throw (.other "KeyError" s!"key '{keyId}' not found")
  -- the file that names the active key stays as it is
  | some metadata => modify (·.save { metadata with status := .revoked })

/-- `get_active_config`. -/
def getActiveConfig : EStateM Exn KeyStore EncryptionConfig := do
  match (← get).getActive with
  -- whatever the status
  | some metadata => liftExcept metadata.toConfig
  | none =>
    let metadata ← generateKey
    activate metadata.keyId
    liftExcept metadata.toConfig

/-- `get_decryptor_keys`. -/
def getDecryptorKeys (store : KeyStore) : Except Exn (List EncryptionConfig) :=
  (store.listKeys.filter (·.status ≠ .revoked)).mapM KeyMetadata.toConfig

end KeyStore

/-- A call on the key store. -/
inductive KeyCommand where
  | generateKey (rotationOf : Option String)
  | activate (keyId : String)
  | rotate
  | revoke (keyId : String)
  | getActiveConfig
deriving DecidableEq

/-- The store after a call. A call that raises leaves what it has written. -/
def KeyStore.step (store : KeyStore) : KeyCommand → KeyStore
  | .generateKey rotationOf => final (generateKey rotationOf store)
  | .activate keyId => final (activate keyId store)
  | .rotate => final (rotate store)
  | .revoke keyId => final (revoke keyId store)
  | .getActiveConfig => final (getActiveConfig store)

end Chen
