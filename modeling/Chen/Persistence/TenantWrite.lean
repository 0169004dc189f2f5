import Chen.Persistence.TenantUse

/-!
# Writes for a tenant

A write either raises `QuotaExceededError` and stores nothing, or stores the entry and its time.
Two things go wrong: a tenant that was cleared after use has no times, so that the write stores the
entry and then raises a `KeyError`; and an entry of another role or expert that has the id of the
write takes its text.
-/

namespace Chen

variable [Hashlib]

namespace InMemoryMemory

variable {m : InMemoryMemory} {entry : MemoryEntry}

/-- A memory that is rebuilt has its index in range. -/
theorem InRange.rebuilt (m : InMemoryMemory) (kept : List MemoryEntry) :
    (m.rebuilt kept).InRange := by
  have hmem : ∀ (items d : Dict String ℕ), ∀ p ∈ items.foldl (fun d p => Dict.set d p.1 p.2) d,
      p ∈ d ∨ p ∈ items := by
    intro items
    induction items with
    | nil => exact fun d p hp => .inl hp
    | cons x items ih =>
      intro d p hp
      rcases ih _ p hp with hset | hrest
      · rcases Dict.mem_set hset with rfl | hd
        · exact .inr (List.mem_cons_self ..)
        · exact .inl hd
      · exact .inr (List.mem_cons_of_mem _ hrest)
  intro id i hi
  rw [Dict.lookup_eq_get?] at hi
  rcases hmem _ _ _ (Dict.mem_of_get?_eq_some hi) with hp | hp
  · cases hp
  · obtain ⟨hlt, -⟩ := List.getElem?_eq_some_iff.mp (List.mk_mem_zipIdx_iff_getElem?.mp hp)
    simpa [InMemoryMemory.rebuilt] using hlt

/-- The id of a write refers to its entry afterwards if and only if it referred to nothing else
before. -/
theorem indexed_write_iff (h : m.InRange) :
    (∃ e, (m.write entry).2.indexed entry.id = some e ∧ e.key = entry.key ∧
      e.confidence = entry.confidence) ↔ m.FindsOwn entry := by
  rw [indexed_write h]
  cases hold : m.indexed entry.id with
  | none => exact iff_of_true ⟨_, rfl, rfl, rfl⟩ fun old hold' => by rw [hold] at hold'; cases hold'
  | some old =>
    constructor
    · rintro ⟨e, he, hkey, -⟩ old' hold'
      obtain rfl : old = old' := Option.some.inj (hold.symm.trans hold')
      rw [← Option.some.inj he] at hkey
      simp only [MemoryEntry.key, updateEntry, Prod.mk.injEq] at hkey
      exact ⟨hkey.1, hkey.2.1⟩
    · intro hown
      have hkey : (updateEntry old (m.embedded entry)).key = entry.key :=
        key_updateEntry (hown old hold)
      exact ⟨_, rfl, hkey, rfl⟩

end InMemoryMemory

namespace TenantStore

variable {s : TenantStore}

/-- The store has the entry under its id, and the time it was written. -/
structure Records (entry : MemoryEntry) (written : ℚ) (s : TenantStore) : Prop where
  stored : ∃ mem ∈ s.memory, ∃ e, mem.indexed entry.id = some e ∧ e.key = entry.key ∧
    e.confidence = entry.confidence
  timed : ∃ times ∈ s.times, times.get? entry.id = some written

/-- The index of the memory is in range. -/
def InRange (s : TenantStore) : Prop := ∀ mem ∈ s.memory, mem.InRange

/-- Expiry keeps the index in range. -/
theorem InRange.collected (h : s.InRange) (now : ℚ) : (s.collected now).InRange := by
  intro mem hmem
  unfold TenantStore.collected at hmem
  split at hmem
  · exact h mem hmem
  · split at hmem
    · exact h mem hmem
    · obtain rfl := Option.some.inj hmem
      exact InMemoryMemory.InRange.rebuilt _ _

omit [Hashlib] in
/-- The index of the memory at hand is in range. -/
theorem InRange.memoryOrNew (h : s.InRange) : s.memoryOrNew.InRange := by
  unfold TenantStore.memoryOrNew
  cases hs : s.memory with
  | none => exact InMemoryMemory.InRange.clear { embed := s.embed }
  | some mem => exact h mem hs

omit [Hashlib] in
/-- Opening keeps the index in range. -/
theorem InRange.opened (h : s.InRange) : s.opened.InRange := by
  intro mem hmem
  rw [memory_opened] at hmem
  exact Option.some.inj hmem ▸ h.memoryOrNew

/-- Every call keeps the index in range. -/
theorem InRange.act (s : TenantStore) (c : TenantCall) (h : s.InRange) : (s.act c).2.InRange := by
  refine act_invariant (fun s now h => h.collected now) (fun s h => h.opened) ?_ ?_ s c h
  · intro s entry written h _ mem hmem
    exact Option.some.inj hmem ▸ h.memoryOrNew.write entry
  · intro s _ mem hmem
    obtain ⟨old, -, rfl⟩ := Option.map_eq_some_iff.mp hmem
    exact InMemoryMemory.InRange.clear old

omit [Hashlib] in
/-- An opened store has times unless it is orphaned. -/
theorem isSome_times_opened_iff : s.opened.times.isSome = true ↔ ¬s.Orphaned := by
  rw [isSome_times_opened, Orphaned]
  cases s.memory <;> cases s.times <;> simp

/-- Expiry does not orphan a store. -/
theorem orphaned_collected_iff (now : ℚ) (s : TenantStore) :
    (s.collected now).Orphaned ↔ s.Orphaned := by
  rw [Orphaned, Orphaned, ← Option.isNone_iff_eq_none, ← Option.isNone_iff_eq_none,
    ← Option.not_isSome, ← Option.not_isSome, isSome_memory_collected, isSome_times_collected]

/-- An entry is stored with its time unless the store is orphaned. -/
theorem storedResult_eq_ok_iff (entry : MemoryEntry) :
    s.storedResult entry = .ok entry.id ↔ ¬s.Orphaned := by
  rw [← isSome_times_opened_iff, storedResult]
  cases s.opened.times with
  | none => simp
  | some times => simp

/-- What fails then is not the quota. -/
theorem storedResult_ne_quotaExceededError (entry : MemoryEntry) (tid : String)
    (maxEntries : ℤ) : s.storedResult entry ≠ .error (quotaExceededError tid maxEntries) := by
  unfold storedResult
  split
  · simp [quotaExceededError]
  · simp

/-- An entry is recorded if and only if there are times, and its id refers to nothing else. -/
theorem records_stored_iff (h : s.InRange) (entry : MemoryEntry) (written : ℚ) :
    (s.stored entry written).Records entry written ↔
      ¬s.Orphaned ∧ s.memoryOrNew.FindsOwn entry := by
  rw [← InMemoryMemory.indexed_write_iff h.memoryOrNew, ← isSome_times_opened_iff]
  constructor
  · rintro ⟨⟨mem, hmem, hentry⟩, ⟨times, htimes, -⟩⟩
    obtain rfl := Option.some.inj hmem
    refine ⟨?_, hentry⟩
    obtain ⟨old, hold, -⟩ := Option.map_eq_some_iff.mp htimes
    rw [hold]
    rfl
  · rintro ⟨htimes, hentry⟩
    obtain ⟨times, htimes⟩ := Option.isSome_iff_exists.mp htimes
    refine ⟨⟨_, rfl, hentry⟩, times.set entry.id written, ?_, Dict.get?_set_self ..⟩
    show s.opened.times.map (·.set entry.id written) = some _
    rw [htimes]
    rfl

end TenantStore

namespace MultiTenantMemory

/-- A write raises `QuotaExceededError` and leaves what has not expired as it is, or it returns the
id of the entry, and the store has the entry and its time. -/
def WriteContract (m : MultiTenantMemory) (entry : MemoryEntry) (tenantId : Option String)
    (now written : ℚ) : Prop :=
  let tid := tidOf tenantId
  let (result, after) := m.write entry tenantId now written
  (result = .error (quotaExceededError tid m.maxEntriesPerTenant) ∧ after = m.gcTenant tid now) ∨
    (result = .ok entry.id ∧ (after.store tid).Records entry written)

/-- A write keeps its contract if and only if the quota is reached, or else the tenant was not
cleared after use and the id of the entry refers to nothing else. -/
theorem writeContract_run_iff (embed : String → List ℚ) (maxEntries : ℤ) (ttl : ℚ)
    (calls : List TenantCall) (entry : MemoryEntry) (tenantId : Option String) (now written : ℚ) :
    let m := run { embed, maxEntriesPerTenant := maxEntries, ttlSeconds := ttl } calls
    let s := (m.store (tidOf tenantId)).collected now
    m.WriteContract entry tenantId now written ↔
      s.Full ∨ (¬TenantCall.ClearedAfterUse (tidOf tenantId) calls ∧
        s.memoryOrNew.FindsOwn entry) := by
  intro m s
  have hrange : s.InRange := by
    refine TenantStore.InRange.collected ?_ now
    apply store_run_invariant TenantStore.InRange.act
    exact fun mem hmem => absurd hmem (by simp [store, Dict.get?])
  have horphaned : s.Orphaned ↔ TenantCall.ClearedAfterUse (tidOf tenantId) calls := by
    rw [TenantStore.orphaned_collected_iff]
    exact orphaned_run_iff
      { embed, maxEntriesPerTenant := maxEntries, ttlSeconds := ttl } _ rfl calls
  -- from here on the write is that of the store of the tenant
  have hs : (m.gcTenant (tidOf tenantId) now).store (tidOf tenantId) = s := m.gcTenant_spec now
  have hquota : (m.gcTenant (tidOf tenantId) now).maxEntriesPerTenant = m.maxEntriesPerTenant :=
    (congrArg TenantStore.maxEntries hs).trans (TenantStore.maxEntries_collected now _)
  unfold WriteContract write
  dsimp only
  rw [checkQuota_spec, hs, hquota]
  by_cases hfull : s.Full
  · rw [if_pos hfull]
    exact iff_of_true (.inl ⟨rfl, rfl⟩) (.inl hfull)
  · rw [if_neg hfull]
    obtain ⟨hresult, hstore⟩ :=
      (m.gcTenant (tidOf tenantId) now).storeEntry_spec (tidOf tenantId) entry written
    have hne := s.storedResult_ne_quotaExceededError entry (tidOf tenantId) m.maxEntriesPerTenant
    dsimp only
    rw [hresult, hstore, hs, TenantStore.records_stored_iff hrange,
      TenantStore.storedResult_eq_ok_iff, horphaned]
    tauto

omit [Hashlib] in
/-- A write after the tenant was cleared stores the entry and raises a `KeyError`. -/
theorem write_after_clear_breaks_contract :
    let _ := Hashlib.checksum
    let m := run { embed := fun _ => [] } [.count (some "a"), .clear (some "a")]
    ¬m.WriteContract { text := "x" } (some "a") 0 0 ∧
      (m.write { text := "x" } (some "a") 0 0).1 = .error (.other "KeyError" "a") ∧
      ((m.write { text := "x" } (some "a") 0 0).2.count (some "a")).1 = 1 := by
  intro _ m
  refine ⟨?_, rfl, rfl⟩
  rintro (⟨h, -⟩ | ⟨h, -⟩)
  · simp [quotaExceededError] at h
  · cases h

end MultiTenantMemory

end Chen
