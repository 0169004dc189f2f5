import Chen.Security.Keyring

/-!
# Rotation and revocation

What holds in the course of any series of calls on a key store that starts empty: no data is lost
by rotation, the active key can be used unless it was revoked while in use, and a revoked key stays
revoked unless it is activated again.
-/

namespace Chen

open Effect

namespace Decryptor

/-- A decryptor that holds some configurations. -/
def holding (configs : List EncryptionConfig) : Decryptor := configs.foldl addKey ⟨[]⟩

/-- A configuration that is held under a name of its own is found. -/
theorem holding_get {configs : List EncryptionConfig} {config : EncryptionConfig}
    (hmem : config ∈ configs) (hunique : ∀ c ∈ configs, c.keyId = config.keyId → c = config) :
    Dict.get? (holding configs).keys config.keyId = some config := by
  induction configs using List.reverseRecOn with
  | nil => cases hmem
  | append_singleton configs c ih =>
    rw [holding, List.foldl_append]
    show Dict.get? (Dict.set (holding configs).keys c.keyId c) config.keyId = some config
    by_cases hc : c.keyId = config.keyId
    · rw [hc, Dict.get?_set_self, hunique c (by simp) hc]
    · rw [Dict.get?_set_of_ne _ (Ne.symm hc)]
      apply ih
      · rcases List.mem_append.mp hmem with hmem' | hmem'
        · exact hmem'
        · exact absurd (congrArg _ (List.mem_singleton.mp hmem').symm) hc
      · exact fun c' hc' => hunique c' (List.mem_append_left _ hc')

end Decryptor

namespace KeyStore

/-- The store after a series of calls on an empty one. -/
def after (path : String) (entropy : Entropy) (commands : List KeyCommand) : KeyStore :=
  Machine.run step (empty path entropy) commands

/-! ## Valid stores -/

/-- A new key fits. -/
theorem fresh_fit (store : KeyStore) (rotationOf : Option String) :
    (KeyAction.add (store.fresh rotationOf)).Fit :=
  ⟨rfl, EncryptionConfig.next_keyId_ne store.entropy, _, KeyMetadata.toConfig_fromConfig _ _⟩

/-- The actions of a command fit. -/
theorem actions_fit (store : KeyStore) (command : KeyCommand) :
    ∀ action ∈ store.actions command, action.Fit := by
  have hadd : ∀ rotationOf, ∀ action ∈ [KeyAction.add (store.fresh rotationOf),
      .activate (store.fresh rotationOf).keyId], action.Fit := by
    intro rotationOf action haction
    rcases List.mem_pair.mp haction with rfl | rfl
    · exact store.fresh_fit rotationOf
    · trivial
  cases command with
  | generateKey rotationOf =>
    intro action haction
    rw [List.mem_singleton.mp haction]
    exact store.fresh_fit rotationOf
  | activate keyId =>
    intro action haction
    rw [List.mem_singleton.mp haction]
    trivial
  | rotate => exact hadd _
  | revoke keyId =>
    intro action haction
    rw [List.mem_singleton.mp haction]
    trivial
  | getActiveConfig =>
    rw [actions]
    split
    case isTrue => exact hadd none
    case isFalse => exact List.forall_mem_nil _

/-- Every command keeps the store valid. -/
theorem valid_step {store : KeyStore} (h : store.ring.Valid) (command : KeyCommand) :
    (store.step command).ring.Valid := by
  rw [(store.step_spec command).1]
  apply Machine.run_invariant
  · exact fun ring action haction hvalid => hvalid.act (store.actions_fit command action haction)
  · exact h

/-- An empty store is valid. -/
theorem valid_empty (path : String) (entropy : Entropy) : (empty path entropy).ring.Valid :=
  ⟨nofun, nofun⟩

/-- So is every store that commands lead to. -/
theorem valid_after (path : String) (entropy : Entropy) (commands : List KeyCommand) :
    (after path entropy commands).ring.Valid :=
  Machine.run_invariant (I := fun store : KeyStore => store.ring.Valid)
    (fun _ command _ h => valid_step h command) (valid_empty path entropy)

/-- The decryption keys are the configurations of the keys that are not revoked. -/
theorem getDecryptorKeys_spec {store : KeyStore} (h : store.ring.Valid) :
    ∃ configs, store.getDecryptorKeys = .ok configs ∧ ∀ config, config ∈ configs ↔
      ∃ metadata, store.load config.keyId = some metadata ∧ metadata.status ≠ .revoked ∧
        metadata.toConfig = .ok config := by
  have hreturns : ∀ metadata ∈ store.listKeys.filter (·.status ≠ .revoked),
      ∃ config, metadata.toConfig = .ok config := by
    intro metadata hmem
    exact (h.stored (mem_listKeys.mp (List.mem_filter.mp hmem).1)).2.2
  obtain ⟨configs, hconfigs, hmem⟩ := except_mapM_returns hreturns
  refine ⟨configs, hconfigs, fun config => (hmem config).trans ?_⟩
  constructor
  · rintro ⟨metadata, hlisted, hconfig⟩
    obtain ⟨hstored, hstatus⟩ := List.mem_filter.mp hlisted
    rw [KeyMetadata.toConfig_keyId hconfig]
    exact ⟨metadata, mem_listKeys.mp hstored, by simpa using hstatus, hconfig⟩
  · rintro ⟨metadata, hload, hstatus, hconfig⟩
    refine ⟨metadata, List.mem_filter.mpr ⟨mem_listKeys.mpr ?_, by simpa using hstatus⟩, hconfig⟩
    rw [keyId_of_load hload, hload]

/-- What was sealed under a stored key is decrypted unless the key is revoked. -/
theorem decrypt_stored [Cryptography] (hlaws : Cryptography.Lawful) {store : KeyStore}
    (h : store.ring.Valid) {config : EncryptionConfig} {metadata : KeyMetadata}
    (hload : store.load config.keyId = some metadata) (hconfig : metadata.toConfig = .ok config)
    (hstatus : metadata.status ≠ .revoked) {block : EncryptedBlock} {sessionId plaintext : Bytes}
    (hseals : block.Seals config sessionId plaintext) :
    ∃ configs, store.getDecryptorKeys = .ok configs ∧
      (Decryptor.holding configs).decrypt block sessionId = .ok plaintext := by
  obtain ⟨configs, hconfigs, hmem⟩ := getDecryptorKeys_spec h
  refine ⟨configs, hconfigs, hseals.decrypt_eq_ok hlaws (Decryptor.holding_get ?_ ?_) rfl⟩
  · exact (hmem config).mpr ⟨metadata, hload, hstatus, hconfig⟩
  · intro config' hconfig' hkeyId
    obtain ⟨metadata', hload', -, heq⟩ := (hmem config').mp hconfig'
    rw [hkeyId, hload] at hload'
    cases hload'
    exact Except.ok.inj (heq.symm.trans hconfig)

/-- `get_active_config` returns, and its key is revoked only if the key in use was. -/
theorem getActiveConfig_spec {store : KeyStore} (h : store.ring.Valid) :
    ∃ config metadata, getActiveConfig store = .ok config (store.step .getActiveConfig) ∧
      (store.step .getActiveConfig).load config.keyId = some metadata ∧
      metadata.toConfig = .ok config ∧
      (metadata.status = .revoked ↔
        ∃ id, store.activeKeyId = some id ∧ store.ring.IsRevoked id) := by
  cases hactive : store.activeKeyId with
  | some id =>
    -- The pointer says which key, whatever its status.
    obtain ⟨metadata, hkey⟩ := Option.ne_none_iff_exists'.mp (h.inUse hactive)
    obtain ⟨hkeyId, -, config, hconfig⟩ := h.stored hkey
    have hrun : getActiveConfig store = .ok config store := by
      rw [getActiveConfig_some ((h.current_eq hactive).trans hkey), hconfig]
      rfl
    rw [step, hrun]
    refine ⟨config, metadata, rfl, ?_, hconfig, ?_⟩
    · rw [KeyMetadata.toConfig_keyId hconfig, hkeyId]
      exact hkey
    · constructor
      · exact fun hstatus => ⟨id, rfl, metadata, hkey, hstatus⟩
      · rintro ⟨_, ⟨⟩, metadata', hkey', hstatus⟩
        rw [hkey] at hkey'
        cases hkey'
        exact hstatus
  | none =>
    -- a new key is made, which is not revoked
    have hcurrent : store.ring.current = none := by
      rw [Keyring.current, ring, hactive]
    obtain ⟨store', hrun, hring, -⟩ := getActiveConfig_none hcurrent
    have hload : store'.load (EncryptionConfig.next store.entropy).keyId = some store.fresh := by
      have hkey := Keyring.key_add_activate store.ring store.fresh
      rw [← hring] at hkey
      exact hkey
    rw [step, hrun]
    refine ⟨_, _, rfl, hload, KeyMetadata.toConfig_fromConfig _ _, ?_⟩
    exact iff_of_false (fun hstatus => by cases hstatus) (by rintro ⟨_, ⟨⟩, -⟩)

/-! ## Old data -/

/-- The identifier of the key that is made after `i` other ones. It is drawn after the master
key. -/
def nthId (entropy : Entropy) (i : ℕ) : String :=
  Str.hex (entropy.draw (entropy.used + 2 * i + 1) 8)

/-- The first keys have distinct identifiers, as far as they are drawn before the `n`-th draw. -/
def DistinctIds (entropy : Entropy) (n : ℕ) : Prop :=
  ∀ i j, entropy.used + 2 * i + 1 < n → entropy.used + 2 * j + 1 < n →
    nthId entropy i = nthId entropy j → i = j

/-- The stored identifiers have been drawn, and draws come in pairs. -/
structure Drawn (entropy : Entropy) (store : KeyStore) : Prop where
  draw : store.entropy.draw = entropy.draw
  made : ∃ n, store.entropy.used = entropy.used + 2 * n
  stored : ∀ {id}, store.load id ≠ none →
    ∃ i, entropy.used + 2 * i + 1 < store.entropy.used ∧ id = nthId entropy i

/-- A new id is the next that the entropy gives. -/
theorem Drawn.fresh_keyId {entropy : Entropy} {store : KeyStore} (h : store.Drawn entropy) :
    ∃ n, store.entropy.used = entropy.used + 2 * n ∧ store.fresh.keyId = nthId entropy n := by
  obtain ⟨n, hused⟩ := h.made
  refine ⟨n, hused, ?_⟩
  show Str.hex (store.entropy.draw (store.entropy.used + 1) 8) = _
  rw [h.draw, hused, nthId]

/-- What a call may add to the keyring. -/
theorem add_mem_actions {store : KeyStore} {command : KeyCommand} {metadata : KeyMetadata}
    (h : .add metadata ∈ store.actions command) :
    metadata.keyId = store.fresh.keyId ∧ store.drawn command = 2 := by
  cases command with
  | generateKey rotationOf =>
    cases List.mem_singleton.mp h
    exact ⟨rfl, rfl⟩
  | activate keyId => cases List.mem_singleton.mp h
  | rotate =>
    rcases List.mem_pair.mp h with heq | heq
    · cases heq
      exact ⟨rfl, rfl⟩
    · cases heq
  | revoke keyId => cases List.mem_singleton.mp h
  | getActiveConfig =>
    simp only [actions, drawn] at h ⊢
    split at h
    case isTrue hcurrent =>
      rw [if_pos hcurrent]
      rcases List.mem_pair.mp h with heq | heq
      · cases heq
        exact ⟨rfl, rfl⟩
      · cases heq
    case isFalse => cases h

/-- A command draws twice or not at all. -/
theorem drawn_eq (store : KeyStore) (command : KeyCommand) :
    store.drawn command = 0 ∨ store.drawn command = 2 := by
  cases command with
  | generateKey rotationOf => exact .inr rfl
  | activate keyId => exact .inl rfl
  | rotate => exact .inr rfl
  | revoke keyId => exact .inl rfl
  | getActiveConfig =>
    rw [drawn]
    split
    case isTrue => exact .inr rfl
    case isFalse => exact .inl rfl

/-- Every command keeps count of what was drawn. -/
theorem Drawn.step {entropy : Entropy} {store : KeyStore} (h : store.Drawn entropy)
    (command : KeyCommand) : (store.step command).Drawn entropy := by
  obtain ⟨hring, hentropy⟩ := store.step_spec command
  obtain ⟨n, hused, hfresh⟩ := h.fresh_keyId
  have hused' : (store.step command).entropy.used = entropy.used + 2 * n + store.drawn command := by
    rw [hentropy, ← hused]
  constructor
  case draw =>
    rw [hentropy]
    exact h.draw
  case made =>
    rcases drawn_eq store command with hdrawn | hdrawn
    · exact ⟨n, by omega⟩
    · exact ⟨n + 1, by omega⟩
  case stored =>
    intro id hid
    rw [show (store.step command).load = _ from congrArg Keyring.key hring] at hid
    rcases Keyring.key_run_ne_none hid with hold | ⟨metadata, hadd, rfl⟩
    · obtain ⟨i, hi, hdrawn⟩ := h.stored hold
      exact ⟨i, by omega, hdrawn⟩
    · obtain ⟨hkeyId, htwo⟩ := add_mem_actions hadd
      exact ⟨n, by omega, hkeyId.trans hfresh⟩

/-- So does every series of commands. -/
theorem drawn_after (path : String) (entropy : Entropy) (commands : List KeyCommand) :
    (after path entropy commands).Drawn entropy :=
  Machine.run_invariant (I := fun store : KeyStore => store.Drawn entropy)
    (fun _ command _ h => h.step command) ⟨rfl, ⟨0, rfl⟩, fun h => absurd rfl h⟩

/-- An identifier that differs from those that were drawn before is new. -/
theorem Drawn.load_fresh {entropy : Entropy} {store : KeyStore} (h : store.Drawn entropy)
    (hdistinct : DistinctIds entropy (store.entropy.used + 2)) :
    store.load store.fresh.keyId = none := by
  by_contra hstored
  -- the identifier would have been drawn for an earlier key
  obtain ⟨i, hi, hdrawn⟩ := h.stored hstored
  obtain ⟨n, hused, hfresh⟩ := h.fresh_keyId
  have heq : i = n := by
    apply hdistinct i n (by omega) (by omega)
    rw [← hdrawn, hfresh]
  omega

/-- A call keeps all keys if the identifiers up to its last draw are distinct. -/
theorem keeps_step {entropy : Entropy} {store : KeyStore} (h : store.Drawn entropy)
    {command : KeyCommand}
    (hdistinct : DistinctIds entropy (store.step command).entropy.used) :
    store.ring.Keeps (store.step command).ring := by
  obtain ⟨hring, hentropy⟩ := store.step_spec command
  have hnew : ∀ metadata, .add metadata ∈ store.actions command →
      store.ring.key metadata.keyId = none := by
    intro metadata hadd
    obtain ⟨hkeyId, htwo⟩ := add_mem_actions hadd
    rw [hentropy, htwo] at hdistinct
    rw [hkeyId]
    exact h.load_fresh hdistinct
  -- Only an addition could put another key in a key's place, and it is under a new id.
  have hsingle : ∀ action, action ∈ store.actions command →
      store.ring.Keeps (store.ring.act action) := by
    intro action haction
    apply Keyring.keeps_act
    rintro metadata rfl
    exact hnew metadata haction
  have hactivate : ∀ ring id, Keyring.Keeps ring (ring.act (.activate id)) :=
    fun ring id => ring.keeps_act nofun
  rw [hring]
  cases command with
  | generateKey rotationOf => exact hsingle _ (List.mem_singleton_self _)
  | activate keyId => exact hactivate _ _
  | rotate => exact (hsingle _ (List.mem_cons_self ..)).trans (hactivate _ _)
  | revoke keyId => exact hsingle _ (List.mem_singleton_self _)
  | getActiveConfig =>
    rw [actions] at hsingle ⊢
    split
    case isTrue hcurrent =>
      rw [if_pos hcurrent] at hsingle
      exact (hsingle _ (List.mem_cons_self ..)).trans (hactivate _ _)
    case isFalse => exact Keyring.Keeps.refl _

/-- Entropy is only ever used up. -/
theorem used_le_run (store : KeyStore) (commands : List KeyCommand) :
    store.entropy.used ≤ (Machine.run step store commands).entropy.used := by
  refine Machine.run_invariant (I := fun s : KeyStore => store.entropy.used ≤ s.entropy.used)
    ?_ le_rfl
  intro s command _ hle
  rw [(s.step_spec command).2]
  exact Nat.le_add_right_of_le hle

/-- Distinct ids keep all keys through a run. -/
theorem keeps_run {entropy : Entropy} {store : KeyStore} (h : store.Drawn entropy)
    {commands : List KeyCommand}
    (hdistinct : DistinctIds entropy (Machine.run step store commands).entropy.used) :
    store.ring.Keeps (Machine.run step store commands).ring := by
  induction commands generalizing store with
  | nil => exact Keyring.Keeps.refl _
  | cons command commands ih =>
    have hused := used_le_run (store.step command) commands
    refine (keeps_step h ?_).trans (ih (h.step command) hdistinct)
    exact fun i j hi hj => hdistinct i j (hi.trans_le hused) (hj.trans_le hused)

/-- Rotation never loses data: what was encrypted under a configuration that `get_active_config` has
returned is decrypted with the decryption keys of the end, unless its key is revoked by then. -/
theorem rotation_keeps_data [Cryptography] (hlaws : Cryptography.Lawful) (path : String)
    (entropy : Entropy) (commands : List KeyCommand)
    (hdistinct : DistinctIds entropy (after path entropy commands).entropy.used)
    (pre : List KeyCommand) (hpre : pre ++ [.getActiveConfig] <+: commands)
    (config : EncryptionConfig) (store : KeyStore)
    (hconfig : getActiveConfig (after path entropy pre) = .ok config store)
    (plaintext sessionId : Bytes) (nonces nonces' : Entropy) (block : EncryptedBlock)
    (hencrypt : Encryptor.encrypt ⟨config⟩ plaintext sessionId nonces = .ok block nonces') :
    (∃ metadata, (after path entropy commands).load block.keyId = some metadata ∧
      metadata.status = .revoked) ∨
    ∃ configs, (after path entropy commands).getDecryptorKeys = .ok configs ∧
      (Decryptor.holding configs).decrypt block sessionId = .ok plaintext := by
  have hseals := Encryptor.encrypt_seals hencrypt
  obtain ⟨rest, rfl⟩ := hpre
  obtain ⟨_, metadata, hrun, hload, hmetadata, -⟩ :=
    getActiveConfig_spec (valid_after path entropy pre)
  rw [hrun] at hconfig
  cases hconfig
  -- from the call on, the key is kept
  have hdrawn := drawn_after path entropy (pre ++ [.getActiveConfig])
  have hend : after path entropy (pre ++ [.getActiveConfig] ++ rest) =
      Machine.run step (after path entropy (pre ++ [.getActiveConfig])) rest :=
    Machine.run_append _ _ _
  have hcall : after path entropy (pre ++ [.getActiveConfig]) =
      (after path entropy pre).step .getActiveConfig :=
    Machine.run_append _ _ _
  rw [hend] at hdistinct
  have hkeeps := keeps_run hdrawn hdistinct
  rw [← hend, hcall] at hkeeps
  obtain ⟨metadata', hload', hmetadata'⟩ := hkeeps _ _ hload
  rw [hseals.keyId]
  by_cases hstatus : metadata'.status = .revoked
  · exact .inl ⟨metadata', hload', hstatus⟩
  · exact .inr (decrypt_stored hlaws (valid_after path entropy _) hload'
      (hmetadata'.trans hmetadata) hstatus hseals)

section Examples

local instance sealingRotation : Cryptography := .seals

/-- A block is decrypted after the key has been rotated. -/
theorem rotation_keeps_data_once : ∃ block nonces',
    Encryptor.encrypt ⟨.next .counter⟩ [7] [9] .counter = .ok block nonces' ∧
      ((∃ metadata, (after "keys" .counter [.getActiveConfig, .rotate]).load block.keyId =
          some metadata ∧ metadata.status = .revoked) ∨
        ∃ configs, (after "keys" .counter [.getActiveConfig, .rotate]).getDecryptorKeys =
            .ok configs ∧
          (Decryptor.holding configs).decrypt block [9] = .ok [7]) := by
  have hused : (after "keys" .counter [.getActiveConfig, .rotate]).entropy.used = 4 := by
    decide +kernel
  have hids : ∀ i < 2, ∀ j < 2, nthId .counter i = nthId .counter j → i = j := by
    decide +kernel
  have hdistinct : DistinctIds .counter
      (after "keys" .counter [.getActiveConfig, .rotate]).entropy.used := by
    intro i j hi hj
    have hzero : Entropy.counter.used = 0 := rfl
    exact hids i (by omega) j (by omega)
  have hencrypt : ∃ block nonces',
      Encryptor.encrypt ⟨.next .counter⟩ [7] [9] .counter = .ok block nonces' ∧ True :=
    Returned.exists (by decide +kernel)
  have hconfig : ∃ config store, getActiveConfig (after "keys" .counter []) = .ok config store ∧
      config = .next .counter :=
    Returned.exists (by decide +kernel)
  obtain ⟨block, nonces', hblock, -⟩ := hencrypt
  obtain ⟨_, store, hactive, rfl⟩ := hconfig
  refine ⟨block, nonces', hblock, ?_⟩
  exact rotation_keeps_data Cryptography.seals_lawful "keys" .counter [.getActiveConfig, .rotate]
    hdistinct [] ⟨[.rotate], rfl⟩ _ store hactive [7] [9] .counter nonces' block hblock

end Examples

/-! ## The active key -/

section Active

variable [Cryptography]

/-- The configuration that `get_active_config` returns is of a key that is not revoked, and the
decryption keys open what is sealed under it. -/
def ActiveUsable (store : KeyStore) : Prop :=
  ∀ config store', getActiveConfig store = .ok config store' →
    (∃ metadata, store'.load config.keyId = some metadata ∧ metadata.status ≠ .revoked) ∧
    ∀ (block : EncryptedBlock) (sessionId plaintext : Bytes),
      block.Seals config sessionId plaintext →
      ∃ configs, store'.getDecryptorKeys = .ok configs ∧
        (Decryptor.holding configs).decrypt block sessionId = .ok plaintext

/-- The active key of a store can be used if that of its ring can. -/
theorem activeUsable_iff (hlaws : Cryptography.Lawful) {store : KeyStore}
    (h : store.ring.Valid) : store.ActiveUsable ↔ store.ring.Usable := by
  obtain ⟨config, metadata, hrun, hload, hconfig, hstatus⟩ := getActiveConfig_spec h
  constructor
  · intro husable id hactive hrevoked
    obtain ⟨⟨metadata', hload', hne⟩, -⟩ := husable config _ hrun
    rw [hload] at hload'
    cases hload'
    exact hne (hstatus.mpr ⟨id, hactive, hrevoked⟩)
  · intro husable config' store' hrun'
    rw [hrun] at hrun'
    cases hrun'
    have hne : metadata.status ≠ .revoked := by
      intro hrevoked
      obtain ⟨id, hactive, hid⟩ := hstatus.mp hrevoked
      exact husable id hactive hid
    refine ⟨⟨metadata, hload, hne⟩, ?_⟩
    intro block sessionId plaintext hseals
    exact decrypt_stored hlaws (valid_step h _) hload hconfig hne hseals

omit [Cryptography] in
/-- It stays so under every command but the one that revokes it. -/
theorem usable_step {store : KeyStore} (hvalid : store.ring.Valid) (h : store.ring.Usable)
    (command : KeyCommand) : (store.step command).ring.Usable ↔
      ∀ keyId, command = .revoke keyId → store.activeKeyId ≠ some keyId := by
  have hadded : ∀ rotationOf, (store.ring.act (.add (store.fresh rotationOf))).Usable :=
    fun rotationOf => h.add (store.fresh_fit rotationOf)
  rw [(store.step_spec command).1]
  cases command with
  | generateKey rotationOf => exact iff_of_true (hadded rotationOf) (by simp)
  | activate keyId => exact iff_of_true (h.activate keyId) (by simp)
  | rotate => exact iff_of_true ((hadded _).activate _) (by simp)
  | revoke keyId =>
    -- the only call that can do harm
    refine (Keyring.usable_revoke hvalid h).trans ?_
    simp [ring]
  | getActiveConfig =>
    refine iff_of_true ?_ (by simp)
    rw [actions]
    split
    case isTrue => exact (hadded none).activate _
    case isFalse => exact h

/-- In the course of a series of calls the active configuration can always be used if and only if
no call revokes the key that is active at that time. -/
theorem active_usable_iff (hlaws : Cryptography.Lawful) (path : String) (entropy : Entropy)
    (commands : List KeyCommand) :
    (∀ pre, pre <+: commands → (after path entropy pre).ActiveUsable) ↔
      ∀ pre keyId, pre ++ [.revoke keyId] <+: commands →
        (after path entropy pre).activeKeyId ≠ some keyId := by
  have hempty := valid_empty path entropy
  have hstep : ∀ (store : KeyStore) command, store.ring.Valid → store.ActiveUsable →
      ((store.step command).ActiveUsable ↔
        ∀ keyId, command = .revoke keyId → store.activeKeyId ≠ some keyId) := by
    intro store command hvalid husable
    rw [activeUsable_iff hlaws hvalid] at husable
    rw [activeUsable_iff hlaws (valid_step hvalid command), usable_step hvalid husable]
  have hstart : (empty path entropy).ActiveUsable := (activeUsable_iff hlaws hempty).mpr nofun
  refine (Machine.always_iff (I := fun store : KeyStore => store.ring.Valid)
    (fun _ command h => valid_step h command) hstep hempty hstart commands).trans ?_
  constructor
  · exact fun h pre keyId hpre => h pre _ hpre keyId rfl
  · rintro h pre _ hpre keyId rfl
    exact h pre keyId hpre

end Active

section Examples

local instance sealingActive : Cryptography := .seals

/-- An old key may be revoked. -/
theorem active_usable_rotated :
    (after "keys" .counter [.getActiveConfig, .rotate]).activeKeyId = some "0303030303030303" ∧
      ∀ pre, pre <+: [.getActiveConfig, .rotate, .revoke "0101010101010101"] →
        (after "keys" .counter pre).ActiveUsable := by
  have hactive : (after "keys" .counter [.getActiveConfig, .rotate]).activeKeyId =
      some "0303030303030303" := by
    decide
  refine ⟨hactive, (active_usable_iff Cryptography.seals_lawful "keys" .counter _).mpr ?_⟩
  rintro pre keyId ⟨rest, hpre⟩
  rcases pre with _ | ⟨a, _ | ⟨b, _ | ⟨c, pre⟩⟩⟩
  · simp at hpre
  · simp at hpre
  · simp only [List.cons_append, List.nil_append, List.cons.injEq, KeyCommand.revoke.injEq] at hpre
    obtain ⟨rfl, rfl, rfl, -⟩ := hpre
    rw [hactive]
    decide
  · simp at hpre

/-- The active key is revoked and stays in use, and no decryption keys are left. -/
theorem active_key_revoked : ∃ config store,
    getActiveConfig (after "keys" .counter [.getActiveConfig, .revoke "0101010101010101"]) =
        .ok config store ∧
      (store.load config.keyId).map (·.status) = some .revoked ∧ store.getDecryptorKeys = .ok [] :=
  Returned.exists (by decide)

end Examples

/-! ## Revoked keys -/

/-- The stored key is revoked, and its configuration is not among the decryption keys. -/
def Barred (store : KeyStore) (keyId : String) : Prop :=
  (∃ metadata, store.load keyId = some metadata ∧ metadata.status = .revoked) ∧
    ∃ configs, store.getDecryptorKeys = .ok configs ∧ ∀ config ∈ configs, config.keyId ≠ keyId

/-- A key is barred from a store if its ring has it revoked. -/
theorem barred_iff {store : KeyStore} (h : store.ring.Valid) {keyId : String} :
    store.Barred keyId ↔ store.ring.IsRevoked keyId := by
  constructor
  · exact And.left
  · rintro ⟨metadata, hkey, hstatus⟩
    obtain ⟨configs, hconfigs, hmem⟩ := getDecryptorKeys_spec h
    refine ⟨⟨metadata, hkey, hstatus⟩, configs, hconfigs, ?_⟩
    rintro config hconfig rfl
    obtain ⟨metadata', hload, hne, -⟩ := (hmem config).mp hconfig
    rw [show store.load config.keyId = _ from hkey] at hload
    cases hload
    exact hne hstatus

/-- A call that takes the key back: it activates the key, or a new key draws its identifier. -/
def Readmits (keyId : String) (store : KeyStore) : KeyCommand → Prop
  | .activate id => id = keyId
  | .generateKey _ | .rotate => store.fresh.keyId = keyId
  | .getActiveConfig => store.getActive = none ∧ store.fresh.keyId = keyId
  | .revoke _ => False

/-- A revoked key stays so unless a command readmits it. -/
theorem isRevoked_step {store : KeyStore} {keyId : String} (h : store.ring.IsRevoked keyId)
    (command : KeyCommand) :
    (store.step command).ring.IsRevoked keyId ↔ ¬Readmits keyId store command := by
  have hadd : ∀ rotationOf, (store.ring.act (.add (store.fresh rotationOf))).IsRevoked keyId ↔
      store.fresh.keyId ≠ keyId := by
    intro rotationOf
    rw [Keyring.isRevoked_add (store.fresh_fit rotationOf), and_iff_left h, ne_comm]
    rfl
  -- The activation that follows is of the same key, and adds nothing.
  have hreplace : ∀ rotationOf, ((store.ring.act (.add (store.fresh rotationOf))).act
      (.activate (store.fresh rotationOf).keyId)).IsRevoked keyId ↔
      store.fresh.keyId ≠ keyId := by
    intro rotationOf
    rw [Keyring.isRevoked_activate, hadd, ne_comm]
    exact and_self_iff
  rw [(store.step_spec command).1]
  cases command with
  | generateKey rotationOf => exact hadd rotationOf
  | activate id =>
    refine Keyring.isRevoked_activate.trans ?_
    rw [and_iff_left h, ne_comm]
    rfl
  | rotate => exact hreplace _
  | revoke id => exact iff_of_true (Keyring.isRevoked_revoke.mpr (.inr h)) not_false
  | getActiveConfig =>
    rw [actions]
    split
    case isTrue hcurrent =>
      rw [Readmits, not_and]
      exact (hreplace none).trans ⟨fun hne _ => hne, fun hne => hne hcurrent⟩
    case isFalse hcurrent => exact iff_of_true h fun hreadmits => hcurrent hreadmits.1

/-- Once `revoke` has returned, the key stays revoked and out of the decryption keys if and only if
no later call takes it back. -/
theorem revoked_forever_iff (path : String) (entropy : Entropy) (history : List KeyCommand)
    (keyId : String) (store : KeyStore)
    (hrevoke : revoke keyId (after path entropy history) = .ok () store)
    (commands : List KeyCommand) :
    (∀ pre, pre <+: commands → (Machine.run step store pre).Barred keyId) ↔
      ∀ pre command, pre ++ [command] <+: commands →
        ¬Readmits keyId (Machine.run step store pre) command := by
  have hvalid := valid_after path entropy history
  have hstored : (after path entropy history).load keyId ≠ none := by
    intro hnone
    obtain ⟨e, herror⟩ := revoke_error hnone
    rw [herror] at hrevoke
    cases hrevoke
  obtain ⟨store', hrun, hring, -⟩ := revoke_spec hstored
  rw [hrun] at hrevoke
  cases hrevoke
  have hvalid' : store.ring.Valid := by
    rw [hring]
    exact hvalid.act trivial
  have hstart : store.Barred keyId := by
    rw [barred_iff hvalid', hring, Keyring.isRevoked_revoke]
    exact .inl ⟨hstored, rfl⟩
  -- one call keeps the key out unless it is one of those that take it back
  have hstep : ∀ (store : KeyStore) command, store.ring.Valid → store.Barred keyId →
      ((store.step command).Barred keyId ↔ ¬Readmits keyId store command) := by
    intro store command hvalid hbarred
    rw [barred_iff hvalid] at hbarred
    rw [barred_iff (valid_step hvalid command), isRevoked_step hbarred]
  exact Machine.always_iff (I := fun store : KeyStore => store.ring.Valid)
    (fun _ command h => valid_step h command) hstep hvalid' hstart commands

/-- Rotation does not take a revoked key back. -/
theorem revoked_forever_rotated : ∃ store,
    revoke "0101010101010101" (after "keys" .counter [.getActiveConfig]) = .ok () store ∧
      ∀ pre, pre <+: [.rotate] → (Machine.run step store pre).Barred "0101010101010101" := by
  have hrevoke : ∃ u store,
      revoke "0101010101010101" (after "keys" .counter [.getActiveConfig]) = .ok u store ∧
        store.fresh.keyId ≠ "0101010101010101" :=
    Returned.exists (by decide)
  obtain ⟨_, store, hrun, hfresh⟩ := hrevoke
  refine ⟨store, hrun, (revoked_forever_iff "keys" .counter _ _ store hrun [.rotate]).mpr ?_⟩
  rintro pre command ⟨rest, hpre⟩
  rcases pre with _ | ⟨a, pre⟩
  · simp only [List.nil_append, List.cons_append, List.cons.injEq] at hpre
    rw [hpre.1]
    exact hfresh
  · simp at hpre

/-- A revoked key is activated again, and decrypts again. -/
theorem revoked_key_readmitted : ∃ u store,
    revoke "0101010101010101" (after "keys" .counter [.getActiveConfig]) = .ok u store ∧
      ((store.step (.activate "0101010101010101")).load "0101010101010101").map (·.status) =
        some .active ∧
      (store.step (.activate "0101010101010101")).getDecryptorKeys = .ok [.next .counter] :=
  Returned.exists (by decide)

end KeyStore

end Chen
