import Chen.Security.Rotation

/-!
# The keys that are marked active

A status is kept in the file of its key, and the key in use is named in a file of its own. A key is
marked active when it is made, before it is in use.
-/

namespace Chen

namespace Keyring

/-- No key but the one in use is marked active. -/
def Exclusive (ring : Keyring) : Prop :=
  ∀ id metadata, ring.key id = some metadata → metadata.status = .active → ring.active = some id

/-- Activating a key leaves no other one active. -/
theorem activated_eq_active {keyId id : String} {status : KeyStatus} :
    activated keyId id status = .active ↔ id = keyId := by
  rw [activated]
  split_ifs with hid hactive
  · exact iff_of_true rfl hid
  · exact iff_of_false (by simp) hid
  · exact iff_of_false hactive hid

/-- A key that is there is the only active one once it is activated. -/
theorem exclusive_activate {ring : Keyring} {keyId : String} (h : ring.key keyId ≠ none) :
    (ring.act (.activate keyId)).Exclusive := by
  rw [act, if_neg h]
  intro id metadata hkey hstatus
  obtain ⟨old, -, rfl⟩ := restate_eq_some.mp hkey
  rw [activated_eq_active.mp hstatus]

/-- So at most one key is active afterwards. -/
theorem Exclusive.activate {ring : Keyring} (h : ring.Exclusive) (keyId : String) :
    (ring.act (.activate keyId)).Exclusive := by
  by_cases hkey : ring.key keyId = none
  · rw [act, if_pos hkey]
    exact h
  · exact exclusive_activate hkey

/-- Revoking a key makes none active. -/
theorem Exclusive.revoke {ring : Keyring} (h : ring.Exclusive) (keyId : String) :
    (ring.act (.revoke keyId)).Exclusive := by
  rw [act]
  split
  case isTrue => exact h
  case isFalse =>
    intro id metadata hkey hstatus
    obtain ⟨old, hold, rfl⟩ := restate_eq_some.mp hkey
    by_cases hid : id = keyId
    · simp [revoked, hid] at hstatus
    · rw [revoked, if_neg hid] at hstatus
      exact h id old hold hstatus

/-- A key that is added as an active one has to have the name of the key in use. -/
theorem exclusive_add_iff {ring : Keyring} (h : ring.Exclusive) {metadata : KeyMetadata}
    (hfit : (KeyAction.add metadata).Fit) :
    (ring.act (.add metadata)).Exclusive ↔ ring.active = some metadata.keyId := by
  constructor
  · exact fun hadded => hadded _ metadata (Function.update_self ..) hfit.1
  · intro hactive id stored hkey hstatus
    by_cases hid : id = metadata.keyId
    · rw [hid]
      exact hactive
    · exact h id stored ((Function.update_of_ne hid _ _).symm.trans hkey) hstatus

end Keyring

namespace KeyStore

/-- At most one stored key has the status `active`, and it is the one that is named as the active
key. -/
def OneActive (store : KeyStore) : Prop :=
  (∀ k ∈ store.listKeys, ∀ k' ∈ store.listKeys, k.status = .active → k'.status = .active →
    k = k') ∧
  ∀ k ∈ store.listKeys, k.status = .active → store.activeKeyId = some k.keyId

instance : DecidablePred OneActive :=
  fun store => inferInstanceAs (Decidable ((∀ k ∈ store.listKeys, _) ∧ ∀ k ∈ store.listKeys, _))

/-- A store has one active key if its ring has. -/
theorem oneActive_iff {store : KeyStore} : store.OneActive ↔ store.ring.Exclusive := by
  constructor
  · rintro ⟨-, hpointed⟩ id metadata hkey hstatus
    obtain rfl := keyId_of_load hkey
    exact hpointed metadata (mem_listKeys.mpr hkey) hstatus
  · intro h
    have hpointed : ∀ k ∈ store.listKeys, k.status = .active →
        store.activeKeyId = some k.keyId :=
      fun k hk hstatus => h k.keyId k (mem_listKeys.mp hk) hstatus
    refine ⟨?_, hpointed⟩
    intro k hk k' hk' hstatus hstatus'
    have hid := (hpointed k hk hstatus).symm.trans (hpointed k' hk' hstatus')
    have hload := mem_listKeys.mp hk
    rw [Option.some.inj hid, mem_listKeys.mp hk'] at hload
    exact (Option.some.inj hload).symm

/-- A command keeps one key active unless it generates one beside another. -/
theorem exclusive_step {store : KeyStore} (h : store.ring.Exclusive) (command : KeyCommand) :
    (store.step command).ring.Exclusive ↔
      ∀ rotationOf, command = .generateKey rotationOf →
        store.activeKeyId = some (store.fresh rotationOf).keyId := by
  -- a key that is made and activated at once is there when it is activated
  have hactivated : ∀ rotationOf, ((store.ring.act (.add (store.fresh rotationOf))).act
      (.activate (store.fresh rotationOf).keyId)).Exclusive := by
    intro rotationOf
    apply Keyring.exclusive_activate
    simp [Keyring.act]
  rw [(store.step_spec command).1]
  cases command with
  | generateKey rotationOf =>
    refine (Keyring.exclusive_add_iff h (store.fresh_fit rotationOf)).trans ?_
    exact ⟨fun hactive _ heq => by cases heq; exact hactive, fun hactive => hactive _ rfl⟩
  | activate keyId => exact iff_of_true (h.activate keyId) (by simp)
  | rotate => exact iff_of_true (hactivated _) (by simp)
  | revoke keyId => exact iff_of_true (h.revoke keyId) (by simp)
  | getActiveConfig =>
    refine iff_of_true ?_ (by simp)
    rw [actions]
    split
    case isTrue => exact hactivated none
    case isFalse => exact h

/-- In the course of a series of calls at most the key in use is marked active if and only if every
call of `generate_key` happens to draw the identifier of that key. -/
theorem oneActive_iff_redrawn (path : String) (entropy : Entropy) (commands : List KeyCommand) :
    (∀ pre, pre <+: commands → (after path entropy pre).OneActive) ↔
      ∀ pre rotationOf, pre ++ [.generateKey rotationOf] <+: commands →
        (after path entropy pre).activeKeyId =
          some ((after path entropy pre).fresh rotationOf).keyId := by
  have hstart : (empty path entropy).ring.Exclusive := fun _ _ hkey => by cases hkey
  simp only [oneActive_iff]
  refine (Machine.always_iff (I := fun _ : KeyStore => True)
    (P := fun store : KeyStore => store.ring.Exclusive) (fun _ _ _ => trivial)
    (fun _ command _ h => exclusive_step h command) trivial hstart commands).trans ?_
  constructor
  · exact fun h pre rotationOf hpre => h pre _ hpre rotationOf rfl
  · rintro h pre _ hpre rotationOf rfl
    exact h pre rotationOf hpre

/-- If the keys get distinct identifiers, a new key never has the name of the key in use. -/
theorem activeKeyId_ne_fresh {path : String} {entropy : Entropy} {commands pre : List KeyCommand}
    (hdistinct : DistinctIds entropy (after path entropy commands).entropy.used)
    {rotationOf : Option String} (hpre : pre ++ [.generateKey rotationOf] <+: commands) :
    (after path entropy pre).activeKeyId ≠
      some ((after path entropy pre).fresh rotationOf).keyId := by
  intro hactive
  obtain ⟨rest, rfl⟩ := hpre
  have hnext : (after path entropy (pre ++ [.generateKey rotationOf])).entropy.used =
      (after path entropy pre).entropy.used + 2 := by
    rw [after, Machine.run_append]
    exact congrArg Entropy.used (step_spec (after path entropy pre) (.generateKey rotationOf)).2
  have hused : (after path entropy pre).entropy.used + 2 ≤
      (after path entropy (pre ++ [.generateKey rotationOf] ++ rest)).entropy.used := by
    rw [← hnext, after, after, Machine.run_append _ _ rest]
    exact used_le_run _ rest
  have hnew := (drawn_after path entropy pre).load_fresh
    fun i j hi hj => hdistinct i j (hi.trans_le hused) (hj.trans_le hused)
  exact (valid_after path entropy pre).inUse hactive hnew

/-- In the course of a series of calls at most the key in use is marked active if and only if every
call of `generate_key` draws the identifier of that key. If the keys get distinct identifiers, this
means that `generate_key` is never called. -/
theorem one_active_iff (path : String) (entropy : Entropy) (commands : List KeyCommand) :
    ((∀ pre, pre <+: commands → (after path entropy pre).OneActive) ↔
      ∀ pre rotationOf, pre ++ [.generateKey rotationOf] <+: commands →
        (after path entropy pre).activeKeyId =
          some ((after path entropy pre).fresh rotationOf).keyId) ∧
    (DistinctIds entropy (after path entropy commands).entropy.used →
      ((∀ pre, pre <+: commands → (after path entropy pre).OneActive) ↔
        ∀ rotationOf, .generateKey rotationOf ∉ commands)) := by
  refine ⟨oneActive_iff_redrawn path entropy commands, fun hdistinct => ?_⟩
  rw [oneActive_iff_redrawn]
  constructor
  · intro h rotationOf hmem
    obtain ⟨pre, rest, rfl⟩ := List.append_of_mem hmem
    have hpre : pre ++ [.generateKey rotationOf] <+: pre ++ .generateKey rotationOf :: rest :=
      ⟨rest, by simp⟩
    exact activeKeyId_ne_fresh hdistinct hpre (h pre rotationOf hpre)
  · intro h pre rotationOf hpre
    exact absurd (hpre.subset (by simp)) (h rotationOf)

/-- Two keys that were made and not activated are both marked active, and no key is in use. -/
theorem generated_keys_active :
    (after "keys" .counter [.generateKey none, .generateKey none]).listKeys.map (·.status) =
        [.active, .active] ∧
      (after "keys" .counter [.generateKey none, .generateKey none]).activeKeyId = none ∧
      ¬(after "keys" .counter [.generateKey none, .generateKey none]).OneActive := by
  decide +kernel

end KeyStore

end Chen
