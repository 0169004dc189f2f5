import Chen.Persistence.TenantQuota
import Chen.Persistence.TenantWrite

/-!
# Errors at the quota

The quota check counts the entries before the write, whether the write adds one or updates one that
is stored. So it raises too early for exactly one kind of write: an update where the quota is
reached.
-/

namespace Chen

variable [Hashlib]

namespace InMemoryMemory

variable {m : InMemoryMemory} {entry : MemoryEntry}

/-- An id that is there is updated, and any other one is added. -/
theorem count_write (m : InMemoryMemory) (entry : MemoryEntry) :
    (m.write entry).2.count =
      if (m.index.lookup entry.id).isSome then m.count else m.count + 1 := by
  cases h : m.index.lookup entry.id with
  | none => simp [write_of_lookup_none h, count]
  | some i => simp [write_of_lookup_some h, count]

end InMemoryMemory

namespace MultiTenantMemory

/-- The memory of a tenant once what has expired is collected. -/
def collectedMemory (m : MultiTenantMemory) (tid : String) (now : ℚ) : InMemoryMemory :=
  ((m.gcTenant tid now).getTenantMemory tid).1

/-- The write raises `QuotaExceededError`. -/
def RaisesQuotaError (m : MultiTenantMemory) (entry : MemoryEntry) (tenantId : Option String)
    (now written : ℚ) : Prop :=
  ∃ message, (m.write entry tenantId now written).1 =
    .error (.other "QuotaExceededError" message)

/-- The write raises `QuotaExceededError` exactly when the entry would be one too many for the
tenant. -/
def QuotaErrorExact (m : MultiTenantMemory) (entry : MemoryEntry) (tenantId : Option String)
    (now written : ℚ) : Prop :=
  m.RaisesQuotaError entry tenantId now written ↔
    m.maxEntriesPerTenant <
      ((m.collectedMemory (tidOf tenantId) now).write entry).2.count

variable (m : MultiTenantMemory)

/-- The memory after expiry. -/
theorem collectedMemory_eq (tid : String) (now : ℚ) :
    m.collectedMemory tid now = ((m.store tid).collected now).memoryOrNew := by
  rw [collectedMemory, (getTenantMemory_spec _ tid).1, gcTenant_spec]

/-- The quota error is raised if the store is full after expiry. -/
theorem raisesQuotaError_iff (entry : MemoryEntry) (tenantId : Option String)
    (now written : ℚ) :
    m.RaisesQuotaError entry tenantId now written ↔
      ((m.store (tidOf tenantId)).collected now).Full := by
  rw [RaisesQuotaError, (m.write_spec entry tenantId now written).1, TenantStore.write]
  split
  · rename_i hfull
    exact ⟨fun _ => hfull, fun _ => ⟨_, rfl⟩⟩
  · rename_i hfull
    refine ⟨?_, fun h => absurd h hfull⟩
    rintro ⟨message, hstored⟩
    rw [TenantStore.storedResult] at hstored
    split at hstored
    · simp at hstored
    · cases hstored

omit [Hashlib] in
/-- A store is full if its memory has as many entries as the quota. -/
theorem full_iff {s : TenantStore} (hmax : 0 < s.maxEntries) :
    s.Full ↔ s.maxEntries ≤ s.memoryOrNew.count := by
  rw [TenantStore.Full, TenantStore.memoryOrNew]
  cases s.memory with
  | none =>
    have hempty : ¬ s.maxEntries ≤ 0 := not_le.mpr hmax
    simpa [InMemoryMemory.count] using hmax
  | some mem => simp [hmax]

variable {m} in
/-- Where a tenant has no more entries than the quota, the check goes wrong for the updates at the
quota. -/
theorem quotaErrorExact_iff {entry : MemoryEntry} {tenantId : Option String} {now written : ℚ}
    (hmax : 0 < m.maxEntriesPerTenant)
    (hcapped : ((m.store (tidOf tenantId)).collected now).Capped) :
    m.QuotaErrorExact entry tenantId now written ↔
      ¬ (m.maxEntriesPerTenant ≤ (m.collectedMemory (tidOf tenantId) now).count ∧
        ((m.collectedMemory (tidOf tenantId) now).index.lookup entry.id).isSome) := by
  have hq : ((m.store (tidOf tenantId)).collected now).maxEntries = m.maxEntriesPerTenant :=
    TenantStore.maxEntries_collected now _
  have hle := hcapped.memoryOrNew (hq ▸ hmax)
  rw [QuotaErrorExact, raisesQuotaError_iff, full_iff (hq ▸ hmax), hq,
    InMemoryMemory.count_write, collectedMemory_eq]
  rw [hq] at hle
  split
  · rename_i hstored
    -- an update: the count stays, and the check may still refuse it
    simp only [hstored, and_true]
    omega
  · rename_i hnew
    -- a new entry: the check and the bound are the same condition
    simp only [hnew, Bool.false_eq_true, and_false, not_false_eq_true, iff_true]
    push_cast
    omega

/-- No tenant is beyond the quota after any series of calls. -/
theorem capped_run (embed : String → List ℚ) {q : ℤ} (hq : 0 < q) (ttl : ℚ)
    (calls : List TenantCall) (tid : String) (now : ℚ) :
    let m := run { embed, maxEntriesPerTenant := q, ttlSeconds := ttl } calls
    m.maxEntriesPerTenant = q ∧ ((m.store tid).collected now).Capped := by
  intro m
  have hinv : (m.store tid).maxEntries = q ∧ (m.store tid).Capped := by
    apply store_run_invariant (TenantStore.capped_act hq)
    exact ⟨rfl, fun mem hmem => absurd hmem (by simp [store, Dict.get?])⟩
  exact ⟨hinv.1, hinv.2.collected now⟩

/-- Under the quota `q`, after any series of calls: a write raises `QuotaExceededError` exactly when
it would exceed the quota, if and only if it is no update of a stored entry while the tenant has `q`
entries that have not expired. -/
theorem quotaErrorExact_run_iff (embed : String → List ℚ) {q : ℤ} (hq : 0 < q) (ttl : ℚ)
    (calls : List TenantCall) (entry : MemoryEntry) (tenantId : Option String)
    (now written : ℚ) :
    let m := run { embed, maxEntriesPerTenant := q, ttlSeconds := ttl } calls
    let mem := m.collectedMemory (tidOf tenantId) now
    m.QuotaErrorExact entry tenantId now written ↔
      ¬ (q ≤ mem.count ∧ (mem.index.lookup entry.id).isSome) := by
  intro m mem
  obtain ⟨hmax, hcapped⟩ := capped_run embed hq ttl calls (tidOf tenantId) now
  rw [quotaErrorExact_iff (hmax.symm ▸ hq) hcapped, hmax]

omit [Hashlib] in
/-- Two entries under a quota of two. -/
theorem quotaErrorExact_run_two :
    let _ := Hashlib.checksum
    let m := run { embed := fun _ => [], maxEntriesPerTenant := 2, ttlSeconds := 0 }
      [.write { text := "x" } none 0 0]
    let mem := m.collectedMemory (tidOf none) 1
    m.QuotaErrorExact { text := "x" } none 1 1 ↔
      ¬ ((2 : ℤ) ≤ mem.count ∧ (mem.index.lookup (MemoryEntry.id { text := "x" })).isSome) := by
  intro _
  exact quotaErrorExact_run_iff (fun _ => []) (by decide) 0 _ _ _ _ _

omit [Hashlib] in
/-- One entry is allowed and stored, and written again. -/
theorem rewrite_at_quota_raises :
    let _ := Hashlib.checksum
    ¬ ∀ (q : ℤ) (calls : List TenantCall) (entry : MemoryEntry) (tenantId : Option String)
      (now written : ℚ), 0 < q →
        (run { embed := fun _ => [], maxEntriesPerTenant := q } calls).QuotaErrorExact entry
          tenantId now written := by
  intro _ hall
  have hexact := hall 1 [.write { text := "x" } none 0 0] { text := "x" } none 1 1 (by decide)
  obtain ⟨-, hcapped⟩ := capped_run (fun _ => []) (q := 1) (by decide) 0
    [.write { text := "x" } none 0 0] (tidOf none) 1
  rw [quotaErrorExact_iff (by decide) hcapped] at hexact
  exact hexact (by decide)

end MultiTenantMemory

end Chen
