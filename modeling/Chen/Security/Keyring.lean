import Chen.Library.Machine
import Chen.Security.Keys

/-!
# Keyrings

What the key store is for: keys by their identifiers, each with a status, and the key in use. Keys
are added, activated and revoked, and every call on the store comes down to these three actions.
-/

namespace Chen

open Effect

/-- Keys by identifier, and the key in use. -/
@[ext] structure Keyring where
  key : String → Option KeyMetadata
  active : Option String

/-- What happens to a keyring. -/
inductive KeyAction where
  | add (metadata : KeyMetadata)
  | activate (keyId : String)
  | revoke (keyId : String)

/-- A key that is added is active, and has a configuration and a name. -/
def KeyAction.Fit : KeyAction → Prop
  | .add metadata => metadata.status = .active ∧ metadata.keyId ≠ "" ∧
      ∃ config, metadata.toConfig = .ok config
  | _ => True

namespace Keyring

/-- The keys with other statuses. -/
def restate (ring : Keyring) (status : String → KeyStatus → KeyStatus) :
    String → Option KeyMetadata :=
  fun id => (ring.key id).map fun metadata =>
    { metadata with status := status id metadata.status }

/-- The statuses once a key is activated: at most this one is active. -/
def activated (keyId id : String) (status : KeyStatus) : KeyStatus :=
  if id = keyId then .active else if status = .active then .retired else status

/-- The statuses once a key is revoked. -/
def revoked (keyId id : String) (status : KeyStatus) : KeyStatus :=
  if id = keyId then .revoked else status

/-- The key in use, unless its identifier is empty. -/
def current (ring : Keyring) : Option KeyMetadata :=
  match ring.active with
  | none | some "" => none
  | some keyId => ring.key keyId

/-- One action. Nothing happens to a key that is not there. -/
def act (ring : Keyring) : KeyAction → Keyring
  | .add metadata => { ring with key := Function.update ring.key metadata.keyId (some metadata) }
  | .activate keyId =>
    if ring.key keyId = none then ring else ⟨ring.restate (activated keyId), some keyId⟩
  | .revoke keyId =>
    if ring.key keyId = none then ring else { ring with key := ring.restate (revoked keyId) }

@[simp] theorem restate_eq_none {ring : Keyring} {status : String → KeyStatus → KeyStatus}
    {id : String} : ring.restate status id = none ↔ ring.key id = none :=
  Option.map_eq_none_iff

/-- A restated key is the old one but for its status. -/
theorem restate_eq_some {ring : Keyring} {status : String → KeyStatus → KeyStatus} {id : String}
    {metadata : KeyMetadata} : ring.restate status id = some metadata ↔
      ∃ old, ring.key id = some old ∧ { old with status := status id old.status } = metadata :=
  Option.map_eq_some_iff

/-- An action that adds nothing leaves the keyring alone or gives its keys other statuses. -/
theorem act_cases (ring : Keyring) (action : KeyAction) :
    (∃ metadata, action = .add metadata) ∨ ring.act action = ring ∨
      ∃ status active, ring.act action = ⟨ring.restate status, active⟩ ∧
        ∀ id, active = some id → ring.active = some id ∨ ring.key id ≠ none := by
  cases action with
  | add metadata => exact .inl ⟨metadata, rfl⟩
  | activate keyId =>
    rw [act]
    split
    case isTrue => exact .inr (.inl rfl)
    case isFalse h =>
      refine .inr (.inr ⟨_, _, rfl, ?_⟩)
      rintro id ⟨⟩
      exact .inr h
  | revoke keyId =>
    rw [act]
    split
    case isTrue => exact .inr (.inl rfl)
    case isFalse => exact .inr (.inr ⟨_, _, rfl, fun id hid => .inl hid⟩)

/-- A key that is added and activated is there and active. -/
theorem key_add_activate (ring : Keyring) (metadata : KeyMetadata) :
    ((ring.act (.add metadata)).act (.activate metadata.keyId)).key metadata.keyId =
      some { metadata with status := .active } := by
  simp [Keyring.act, restate, activated]

/-! ## Valid keyrings -/

/-- Every key has a configuration and a name, and the key in use is there. -/
structure Valid (ring : Keyring) : Prop where
  stored : ∀ {id metadata}, ring.key id = some metadata →
    metadata.keyId = id ∧ id ≠ "" ∧ ∃ config, metadata.toConfig = .ok config
  inUse : ∀ {id}, ring.active = some id → ring.key id ≠ none

/-- Restating keeps a ring valid if its active key is one of its own. -/
theorem Valid.restate {ring : Keyring} (h : ring.Valid) {status : String → KeyStatus → KeyStatus}
    {active : Option String} (hactive : ∀ {id}, active = some id → ring.key id ≠ none) :
    Valid ⟨ring.restate status, active⟩ where
  stored hid := by
    obtain ⟨old, hold, rfl⟩ := restate_eq_some.mp hid
    obtain ⟨hkeyId, hname, hconfig⟩ := h.stored hold
    exact ⟨hkeyId, hname, hconfig⟩
  inUse hid := mt restate_eq_none.mp (hactive hid)

/-- Every action that fits keeps a ring valid. -/
theorem Valid.act {ring : Keyring} (h : ring.Valid) {action : KeyAction} (hfit : action.Fit) :
    (ring.act action).Valid := by
  rcases ring.act_cases action with ⟨metadata, rfl⟩ | hsame | ⟨status, active, hact, hactive⟩
  · constructor
    case stored =>
      intro id stored hid
      by_cases heq : id = metadata.keyId
      · subst heq
        simp only [Keyring.act, Function.update_self, Option.some.injEq] at hid
        subst hid
        exact ⟨rfl, hfit.2⟩
      · simp only [Keyring.act, Function.update_of_ne heq] at hid
        exact h.stored hid
    case inUse =>
      intro id hid
      by_cases heq : id = metadata.keyId
      · subst heq
        simp [Keyring.act]
      · simp only [Keyring.act, Function.update_of_ne heq]
        exact h.inUse hid
  · rw [hsame]
    exact h
  · rw [hact]
    apply h.restate
    intro id hid
    exact (hactive id hid).elim (fun hold => h.inUse hold) fun hstored => hstored

/-- The current key is the one under the active id. -/
theorem Valid.current_eq {ring : Keyring} (h : ring.Valid) {id : String}
    (hactive : ring.active = some id) : ring.current = ring.key id := by
  obtain ⟨metadata, hkey⟩ := Option.ne_none_iff_exists'.mp (h.inUse hactive)
  obtain ⟨-, hname, -⟩ := h.stored hkey
  rw [current, hactive]
  split
  case h_1 heq => cases heq
  case h_2 heq => exact absurd (Option.some.inj heq) hname
  case h_3 heq => rw [Option.some.inj heq]

/-! ## Revoked keys -/

/-- The key is there and revoked. -/
def IsRevoked (ring : Keyring) (id : String) : Prop :=
  ∃ metadata, ring.key id = some metadata ∧ metadata.status = .revoked

/-- Adding a key revokes none, and its own id is no longer revoked. -/
theorem isRevoked_add {ring : Keyring} {metadata : KeyMetadata}
    (hfit : (KeyAction.add metadata).Fit) {id : String} :
    (ring.act (.add metadata)).IsRevoked id ↔ id ≠ metadata.keyId ∧ ring.IsRevoked id := by
  by_cases heq : id = metadata.keyId
  · subst heq
    simp [IsRevoked, Keyring.act, hfit.1]
  · simp [IsRevoked, Keyring.act, heq]

/-- Nor is one that is activated. -/
theorem isRevoked_activate {ring : Keyring} {keyId id : String} :
    (ring.act (.activate keyId)).IsRevoked id ↔ id ≠ keyId ∧ ring.IsRevoked id := by
  rw [Keyring.act]
  split
  case isTrue h =>
    constructor
    -- the key is not there, and what is not there is not revoked
    · intro hrevoked
      refine ⟨?_, hrevoked⟩
      rintro rfl
      obtain ⟨metadata, hkey, -⟩ := hrevoked
      rw [h] at hkey
      cases hkey
    · exact And.right
  case isFalse h =>
    have hstatus : ∀ old : KeyMetadata,
        activated keyId id old.status = .revoked ↔ id ≠ keyId ∧ old.status = .revoked := by
      intro old
      rw [activated]
      split_ifs with hid hold
      · simp [hid]
      · simp [hold]
      · simp [hid]
    simp only [IsRevoked, restate_eq_some]
    constructor
    · rintro ⟨_, ⟨old, hkey, rfl⟩, hrevoked⟩
      exact ⟨((hstatus old).mp hrevoked).1, old, hkey, ((hstatus old).mp hrevoked).2⟩
    · rintro ⟨hid, old, hkey, hrevoked⟩
      exact ⟨_, ⟨old, hkey, rfl⟩, (hstatus old).mpr ⟨hid, hrevoked⟩⟩

/-- Revoking adds one revoked key, if it is there. -/
theorem isRevoked_revoke {ring : Keyring} {keyId id : String} :
    (ring.act (.revoke keyId)).IsRevoked id ↔
      ring.key id ≠ none ∧ id = keyId ∨ ring.IsRevoked id := by
  rw [Keyring.act]
  split
  case isTrue h =>
    refine (or_iff_right ?_).symm
    rintro ⟨hstored, rfl⟩
    exact hstored h
  case isFalse h =>
    simp only [IsRevoked, restate_eq_some]
    constructor
    · rintro ⟨_, ⟨old, hkey, rfl⟩, hrevoked⟩
      simp only [revoked] at hrevoked
      split at hrevoked
      case isTrue hid => exact .inl ⟨by rw [hkey]; exact Option.some_ne_none _, hid⟩
      case isFalse => exact .inr ⟨old, hkey, hrevoked⟩
    · rintro (⟨hstored, rfl⟩ | ⟨old, hkey, hrevoked⟩)
      · obtain ⟨old, hkey⟩ := Option.ne_none_iff_exists'.mp hstored
        exact ⟨_, ⟨old, hkey, rfl⟩, if_pos rfl⟩
      · refine ⟨_, ⟨old, hkey, rfl⟩, ?_⟩
        simp only [revoked, hrevoked, ite_self]

/-- The key in use is not revoked. -/
def Usable (ring : Keyring) : Prop := ∀ id, ring.active = some id → ¬ring.IsRevoked id

/-- A key that is added can be used. -/
theorem Usable.add {ring : Keyring} (h : ring.Usable) {metadata : KeyMetadata}
    (hfit : (KeyAction.add metadata).Fit) : (ring.act (.add metadata)).Usable := by
  intro id hactive hrevoked
  exact h id hactive (isRevoked_add hfit |>.mp hrevoked).2

/-- So can one that is activated, if there is one. -/
theorem Usable.activate {ring : Keyring} (h : ring.Usable) (keyId : String) :
    (ring.act (.activate keyId)).Usable := by
  intro id hactive hrevoked
  obtain ⟨hne, hold⟩ := isRevoked_activate.mp hrevoked
  rw [Keyring.act] at hactive
  split at hactive
  case isTrue => exact h id hactive hold
  case isFalse => exact hne (Option.some.inj hactive).symm

/-- Revocation leaves a usable keyring usable unless it hits the key in use. -/
theorem usable_revoke {ring : Keyring} (hvalid : ring.Valid) (h : ring.Usable) {keyId : String} :
    (ring.act (.revoke keyId)).Usable ↔ ring.active ≠ some keyId := by
  have hactive : (ring.act (.revoke keyId)).active = ring.active := by
    rw [Keyring.act]
    split <;> rfl
  simp only [Usable, hactive, isRevoked_revoke]
  constructor
  · intro husable hkeyId
    exact husable keyId hkeyId (.inl ⟨hvalid.inUse hkeyId, rfl⟩)
  · rintro hne id hid (⟨-, rfl⟩ | hrevoked)
    · exact hne hid
    · exact h id hid hrevoked

/-! ## Keys that are kept -/

/-- Every key of `ring` is still there in `ring'`, with the same configuration. -/
def Keeps (ring ring' : Keyring) : Prop :=
  ∀ id metadata, ring.key id = some metadata →
    ∃ metadata', ring'.key id = some metadata' ∧ metadata'.toConfig = metadata.toConfig

/-- A ring keeps its own keys. -/
theorem Keeps.refl (ring : Keyring) : ring.Keeps ring :=
  fun _ metadata h => ⟨metadata, h, rfl⟩

/-- What is kept twice is kept. -/
theorem Keeps.trans {ring ring' ring'' : Keyring} (h : ring.Keeps ring') (h' : ring'.Keeps ring'') :
    ring.Keeps ring'' := by
  intro id metadata hkey
  obtain ⟨metadata', hkey', hconfig⟩ := h id metadata hkey
  obtain ⟨metadata'', hkey'', hconfig'⟩ := h' id metadata' hkey'
  exact ⟨metadata'', hkey'', hconfig'.trans hconfig⟩

/-- Restating keeps all keys. -/
theorem keeps_restate (ring : Keyring) (status : String → KeyStatus → KeyStatus)
    (active : Option String) : ring.Keeps ⟨ring.restate status, active⟩ :=
  fun _ metadata h => ⟨_, restate_eq_some.mpr ⟨metadata, h, rfl⟩, rfl⟩

/-- Actions keep all keys, unless a new key takes the place of an old one. -/
theorem keeps_act (ring : Keyring) {action : KeyAction}
    (hnew : ∀ metadata, action = .add metadata → ring.key metadata.keyId = none) :
    ring.Keeps (ring.act action) := by
  rcases ring.act_cases action with ⟨metadata, rfl⟩ | hsame | ⟨status, active, hact, -⟩
  · intro id old hkey
    have hne : id ≠ metadata.keyId := by
      rintro rfl
      rw [hnew metadata rfl] at hkey
      cases hkey
    exact ⟨old, (Function.update_of_ne hne _ _).trans hkey, rfl⟩
  · rw [hsame]
    exact Keeps.refl ring
  · rw [hact]
    exact keeps_restate ring status active

/-- Only what is added is new. -/
theorem key_run_ne_none {ring : Keyring} {actions : List KeyAction} {id : String}
    (h : (Machine.run act ring actions).key id ≠ none) :
    ring.key id ≠ none ∨ ∃ metadata, .add metadata ∈ actions ∧ metadata.keyId = id := by
  suffices hrun : (Machine.run act ring actions).key id = none ∨ ring.key id ≠ none ∨
      ∃ metadata, .add metadata ∈ actions ∧ metadata.keyId = id from hrun.resolve_left h
  refine Machine.run_invariant (I := fun r : Keyring => r.key id = none ∨ ring.key id ≠ none ∨
    ∃ metadata, .add metadata ∈ actions ∧ metadata.keyId = id) ?_ ?_
  · rintro r action haction (hnone | hold)
    · rcases r.act_cases action with ⟨metadata, rfl⟩ | hsame | ⟨status, active, hact, -⟩
      · by_cases heq : metadata.keyId = id
        · exact .inr (.inr ⟨metadata, haction, heq⟩)
        · exact .inl ((Function.update_of_ne (Ne.symm heq) _ _).trans hnone)
      · exact .inl (by rw [hsame, hnone])
      · exact .inl (by rw [hact]; exact restate_eq_none.mpr hnone)
    · exact .inr hold
  · exact (em _).imp_right .inl

end Keyring

namespace KeyStore

/-! ## Files -/

/-- A saved key is loaded under its id, and the others as before. -/
theorem load_save (store : KeyStore) (metadata : KeyMetadata) :
    (store.save metadata).load = Function.update store.load metadata.keyId (some metadata) := by
  funext id
  by_cases h : id = metadata.keyId
  · subst h
    rw [Function.update_self]
    exact Dict.get?_set_self _ _ _
  · rw [Function.update_of_ne h]
    exact Dict.get?_set_of_ne _ (fun hfile => h (keyFile_injective hfile)) _

/-- A key is stored under its own identifier. -/
theorem keyId_of_load {store : KeyStore} {id : String} {metadata : KeyMetadata}
    (h : store.load id = some metadata) : metadata.keyId = id := by
  have hnamed := store.named _ (Dict.mem_of_get?_eq_some h)
  exact (keyFile_injective hnamed).symm

/-- The listed keys are the stored ones. -/
theorem mem_listKeys {store : KeyStore} {metadata : KeyMetadata} :
    metadata ∈ store.listKeys ↔ store.load metadata.keyId = some metadata := by
  rw [listKeys, List.mem_map]
  constructor
  · rintro ⟨⟨file, stored⟩, hp, rfl⟩
    have hmem := (List.mem_insertionSort _).mp hp
    obtain rfl : file = keyFile stored.keyId := store.named _ hmem
    exact Dict.get?_eq_some_of_mem store.nodup hmem
  · intro h
    exact ⟨_, (List.mem_insertionSort _).mpr (Dict.mem_of_get?_eq_some h), rfl⟩

/-- Each key is listed once. -/
theorem nodup_listKeys (store : KeyStore) : (store.listKeys.map (·.keyId)).Nodup := by
  have hfiles : ((store.listKeys.map (·.keyId)).map keyFile).Perm (store.files.map Prod.fst) := by
    rw [listKeys, List.map_map, List.map_map]
    refine ((List.perm_insertionSort _ _).map _).trans (.of_eq ?_)
    exact List.map_congr_left fun p hp => (store.named p hp).symm
  exact (hfiles.nodup_iff.mpr store.nodup).of_map _

/-! ## Calls -/

/-- The store as a keyring. -/
def ring (store : KeyStore) : Keyring := ⟨store.load, store.activeKeyId⟩

/-- Saving a key adds it to the ring. -/
theorem ring_save (store : KeyStore) (metadata : KeyMetadata) :
    (store.save metadata).ring = store.ring.act (.add metadata) := by
  rw [Keyring.act, ring, load_save]
  rfl

/-- An active key other than the one named is retired. -/
theorem load_retireOther {store : KeyStore} {k : KeyMetadata}
    (hk : store.load k.keyId = some k) (keyId id : String) :
    (retireOther keyId store k).load id = (store.load id).map fun metadata =>
      if id = k.keyId ∧ id ≠ keyId ∧ metadata.status = .active then
        { metadata with status := .retired }
      else metadata := by
  rw [retireOther]
  split
  case isTrue h =>
    rw [load_save]
    by_cases hid : id = k.keyId
    · subst hid
      rw [hk, Function.update_self, Option.map_some, if_pos ⟨rfl, h⟩]
    · rw [Function.update_of_ne hid]
      simp [hid]
  case isFalse h =>
    by_cases hid : id = k.keyId
    · subst hid
      rw [hk, Option.map_some, if_neg fun h' => h h'.2]
    · simp [hid]

/-- The loop of `activate`, along the keys that are listed. -/
theorem load_foldl_retireOther {keyId : String} {ks : List KeyMetadata} {store : KeyStore}
    (hstored : ∀ k ∈ ks, store.load k.keyId = some k) (hnodup : (ks.map (·.keyId)).Nodup)
    (id : String) :
    (ks.foldl (retireOther keyId) store).load id = (store.load id).map fun metadata =>
      if id ∈ ks.map (·.keyId) ∧ id ≠ keyId ∧ metadata.status = .active then
        { metadata with status := .retired }
      else metadata := by
  induction ks generalizing store with
  | nil => simp
  | cons k ks ih =>
    obtain ⟨hk, hnodup'⟩ := List.nodup_cons.mp hnodup
    have hload := load_retireOther (hstored k (List.mem_cons_self ..)) keyId
    have hstored' : ∀ k' ∈ ks, (retireOther keyId store k).load k'.keyId = some k' := by
      intro k' hk'
      have hne : k'.keyId ≠ k.keyId := fun heq => hk (List.mem_map.mpr ⟨k', hk', heq⟩)
      rw [hload, hstored k' (List.mem_cons_of_mem _ hk'), Option.map_some, if_neg (hne ·.1)]
    rw [List.foldl_cons, ih hstored' hnodup', hload, Option.map_map]
    congr 1
    funext metadata
    -- either `k` is the key and comes no more, or its turn is still to come
    by_cases hid : id = k.keyId
    · subst hid
      simp [hk]
    · simp [hid]

/-- The loop leaves the rest of the store alone. -/
theorem foldl_retireOther_frame (keyId : String) (ks : List KeyMetadata) (store : KeyStore) :
    (ks.foldl (retireOther keyId) store).activeKeyId = store.activeKeyId ∧
      (ks.foldl (retireOther keyId) store).entropy = store.entropy := by
  induction ks generalizing store with
  | nil => exact ⟨rfl, rfl⟩
  | cons k ks ih =>
    have hk : (retireOther keyId store k).activeKeyId = store.activeKeyId ∧
        (retireOther keyId store k).entropy = store.entropy := by
      rw [retireOther]
      split <;> exact ⟨rfl, rfl⟩
    rw [List.foldl_cons]
    exact ⟨(ih _).1.trans hk.1, (ih _).2.trans hk.2⟩

/-- A key that is not there is not activated. -/
theorem activate_error {store : KeyStore} {keyId : String} (h : store.load keyId = none) :
    ∃ e, activate keyId store = .error e store := by
  rw [activate, get_bind_apply, h]
  exact ⟨_, rfl⟩

/-- `activate` activates the key in the keyring. -/
theorem activate_spec {store : KeyStore} {keyId : String} (h : store.load keyId ≠ none) :
    ∃ store', activate keyId store = .ok () store' ∧
      store'.ring = store.ring.act (.activate keyId) ∧ store'.entropy = store.entropy := by
  obtain ⟨metadata, hload⟩ := Option.ne_none_iff_exists'.mp h
  have hkeyId := keyId_of_load hload
  obtain ⟨-, hentropy⟩ := foldl_retireOther_frame keyId store.listKeys store
  rw [activate, get_bind_apply, hload]
  refine ⟨_, rfl, ?_, hentropy⟩
  have hact : store.ring.act (.activate keyId) =
      ⟨store.ring.restate (Keyring.activated keyId), some keyId⟩ := if_neg h
  rw [hact]
  refine Keyring.ext ?_ rfl
  show ((store.listKeys.foldl (retireOther keyId) store).save
    { metadata with status := .active }).load = _
  rw [load_save]
  funext id
  by_cases hid : id = keyId
  -- the key itself is saved last
  · subst hid
    rw [hkeyId, Function.update_self]
    show _ = (store.load _).map _
    simp [hload, hkeyId, Keyring.activated]
  · -- the other keys are as the loop has left them
    rw [Function.update_of_ne (by rwa [hkeyId]),
      load_foldl_retireOther (fun k hk => mem_listKeys.mp hk) store.nodup_listKeys]
    show _ = (store.load id).map _
    cases hid' : store.load id with
    | none => rfl
    | some other =>
      have hlisted : id ∈ store.listKeys.map (·.keyId) := by
        refine List.mem_map.mpr ⟨other, mem_listKeys.mpr ?_, keyId_of_load hid'⟩
        rw [keyId_of_load hid', hid']
      simp only [Option.map_some, Keyring.activated, hlisted, hid, ne_eq, true_and,
        not_false_eq_true]
      split <;> rfl

/-- A key that is not there is not revoked. -/
theorem revoke_error {store : KeyStore} {keyId : String} (h : store.load keyId = none) :
    ∃ e, revoke keyId store = .error e store := by
  rw [revoke, get_bind_apply, h]
  exact ⟨_, rfl⟩

/-- `revoke` revokes the key in the keyring. -/
theorem revoke_spec {store : KeyStore} {keyId : String} (h : store.load keyId ≠ none) :
    ∃ store', revoke keyId store = .ok () store' ∧
      store'.ring = store.ring.act (.revoke keyId) ∧ store'.entropy = store.entropy := by
  obtain ⟨metadata, hload⟩ := Option.ne_none_iff_exists'.mp h
  have hkeyId := keyId_of_load hload
  have hact : store.ring.act (.revoke keyId) =
      { store.ring with key := store.ring.restate (Keyring.revoked keyId) } := if_neg h
  rw [revoke, get_bind_apply, hload, hact]
  refine ⟨_, rfl, Keyring.ext ?_ rfl, rfl⟩
  show (store.save { metadata with status := .revoked }).load = _
  rw [load_save]
  funext id
  show _ = (store.load id).map _
  by_cases hid : id = keyId
  · subst hid
    simp [hkeyId, hload, Keyring.revoked]
  · rw [Function.update_of_ne (by rwa [hkeyId])]
    simp [Keyring.revoked, hid]

/-- The key that is generated next. -/
def fresh (store : KeyStore) (rotationOf : Option String := none) : KeyMetadata :=
  .fromConfig (.next store.entropy) rotationOf

/-- `generate_key` adds a key to the keyring. -/
theorem generateKey_spec (store : KeyStore) (rotationOf : Option String) :
    ∃ store', generateKey rotationOf store = .ok (store.fresh rotationOf) store' ∧
      store'.ring = store.ring.act (.add (store.fresh rotationOf)) ∧
      store'.entropy = { store.entropy with used := store.entropy.used + 2 } := by
  have hdraw : draws EncryptionConfig.generate store = .ok (.next store.entropy)
      { store with entropy := { store.entropy with used := store.entropy.used + 2 } } := by
    rw [draws, EncryptionConfig.generate_eq]
  rw [generateKey, bind_ok hdraw]
  exact ⟨_, rfl, ring_save _ _, rfl⟩

/-- A new key that is activated at once. -/
theorem generate_activate_spec {α : Type} (store : KeyStore) (rotationOf : Option String)
    (f : KeyMetadata → EStateM Exn KeyStore α) :
    ∃ store', (do
        let metadata ← generateKey rotationOf
        activate metadata.keyId
        f metadata) store = f (store.fresh rotationOf) store' ∧
      store'.ring = (store.ring.act (.add (store.fresh rotationOf))).act
        (.activate (store.fresh rotationOf).keyId) ∧
      store'.entropy = { store.entropy with used := store.entropy.used + 2 } := by
  obtain ⟨store₁, hgenerate, hring₁, hentropy₁⟩ := generateKey_spec store rotationOf
  have hstored : store₁.load (store.fresh rotationOf).keyId ≠ none := by
    have hkey := congrArg (Keyring.key · (store.fresh rotationOf).keyId) hring₁
    simp only [Keyring.act, Function.update_self] at hkey
    rw [show store₁.load _ = _ from hkey]
    exact Option.some_ne_none _
  obtain ⟨store₂, hactivate, hring₂, hentropy₂⟩ := activate_spec hstored
  refine ⟨store₂, ?_, ?_, hentropy₂.trans hentropy₁⟩
  · rw [bind_ok hgenerate, bind_ok hactivate]
  · rw [hring₂, hring₁]

/-- A key in use gives the configuration. -/
theorem getActiveConfig_some {store : KeyStore} {metadata : KeyMetadata}
    (h : store.ring.current = some metadata) :
    getActiveConfig store = (liftExcept metadata.toConfig : EStateM _ _ _) store := by
  have hactive : store.getActive = some metadata := h
  rw [getActiveConfig, get_bind_apply, hactive]

/-- If no key is in use, a new one is. -/
theorem getActiveConfig_none {store : KeyStore} (h : store.ring.current = none) :
    ∃ store', getActiveConfig store = .ok (.next store.entropy) store' ∧
      store'.ring = (store.ring.act (.add store.fresh)).act (.activate store.fresh.keyId) ∧
      store'.entropy = { store.entropy with used := store.entropy.used + 2 } := by
  have hactive : store.getActive = none := h
  obtain ⟨store', hrun, hring, hentropy⟩ := generate_activate_spec store none
    fun metadata => liftExcept metadata.toConfig
  refine ⟨store', ?_, hring, hentropy⟩
  rw [getActiveConfig, get_bind_apply, hactive]
  exact hrun.trans (by rw [fresh, KeyMetadata.toConfig_fromConfig]; rfl)

/-- The actions of a call. -/
def actions (store : KeyStore) : KeyCommand → List KeyAction
  | .generateKey rotationOf => [.add (store.fresh rotationOf)]
  | .activate keyId => [.activate keyId]
  | .rotate =>
    let metadata := store.fresh (store.ring.current.map (·.keyId))
    [.add metadata, .activate metadata.keyId]
  | .revoke keyId => [.revoke keyId]
  | .getActiveConfig =>
    if store.ring.current = none then [.add store.fresh, .activate store.fresh.keyId] else []

/-- How many draws a call makes. -/
def drawn (store : KeyStore) : KeyCommand → ℕ
  | .generateKey _ | .rotate => 2
  | .activate _ | .revoke _ => 0
  | .getActiveConfig => if store.ring.current = none then 2 else 0

/-- A call does to the keyring what its actions do. -/
theorem step_spec (store : KeyStore) (command : KeyCommand) :
    (store.step command).ring = Machine.run Keyring.act store.ring (store.actions command) ∧
      (store.step command).entropy =
        { store.entropy with used := store.entropy.used + store.drawn command } := by
  cases command with
  | generateKey rotationOf =>
    obtain ⟨store', hrun, hring, hentropy⟩ := generateKey_spec store rotationOf
    rw [step, hrun]
    exact ⟨hring, hentropy⟩
  | activate keyId =>
    by_cases h : store.load keyId = none
    · obtain ⟨e, hrun⟩ := activate_error h
      rw [step, hrun]
      exact ⟨(if_pos h).symm, rfl⟩
    · obtain ⟨store', hrun, hring, hentropy⟩ := activate_spec h
      rw [step, hrun]
      exact ⟨hring, hentropy⟩
  | rotate =>
    -- a rotation is a generation and an activation
    obtain ⟨store', hrun, hring, hentropy⟩ := generate_activate_spec store
      (store.ring.current.map (·.keyId)) pure
    have hrotate : rotate store = .ok (store.fresh (store.ring.current.map (·.keyId))) store' :=
      hrun
    rw [step, hrotate]
    exact ⟨hring, hentropy⟩
  | revoke keyId =>
    by_cases h : store.load keyId = none
    · obtain ⟨e, hrun⟩ := revoke_error h
      rw [step, hrun]
      exact ⟨(if_pos h).symm, rfl⟩
    · obtain ⟨store', hrun, hring, hentropy⟩ := revoke_spec h
      rw [step, hrun]
      exact ⟨hring, hentropy⟩
  | getActiveConfig =>
    cases hcurrent : store.ring.current with
    | some metadata =>
      rw [step, getActiveConfig_some hcurrent, final_liftExcept, actions, drawn, hcurrent]
      exact ⟨rfl, rfl⟩
    | none =>
      obtain ⟨store', hrun, hring, hentropy⟩ := getActiveConfig_none hcurrent
      rw [step, hrun, actions, drawn, if_pos hcurrent, if_pos hcurrent]
      exact ⟨hring, hentropy⟩

end KeyStore

end Chen
