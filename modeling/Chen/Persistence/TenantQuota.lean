import Chen.Persistence.TenantUse
import Mathlib.Algebra.Order.BigOperators.Group.List
import Mathlib.Algebra.Order.Ring.Int
import Mathlib.Algebra.Order.Ring.Nat
import Mathlib.Algebra.Group.Action.Defs
import Mathlib.Data.Finset.Card
import Mathlib.Data.Nat.Cast.Order.Ring

/-!
# The quota

The quota is checked before a write, and a write adds at most one entry. So no tenant ever has more
entries than the quota, and all tenants together no more than the quota for each.
-/

namespace Chen

variable [Hashlib]

namespace TenantStore

variable {s : TenantStore}

/-- The memory has no more entries than the quota. -/
def Capped (s : TenantStore) : Prop := ∀ mem ∈ s.memory, (mem.count : ℤ) ≤ s.maxEntries

/-- What is collected only makes room. -/
theorem Capped.collected (h : s.Capped) (now : ℚ) : (s.collected now).Capped := by
  intro mem hmem
  rw [maxEntries_collected]
  unfold TenantStore.collected at hmem
  cases hs : s.memory with
  | none =>
    rw [hs] at hmem
    exact h mem (hs ▸ hmem)
  | some old =>
    rw [hs] at hmem
    dsimp only at hmem
    split at hmem
    · exact h mem hmem
    · obtain rfl := Option.some.inj hmem
      have hold := h old hs
      have hle := List.length_filter_le (·.id ∉ s.expired now) old.entries
      show ((old.entries.filter (·.id ∉ s.expired now)).length : ℤ) ≤ s.maxEntries
      rw [InMemoryMemory.count] at hold
      omega

omit [Hashlib] in
/-- A memory, new or not, is within the quota. -/
theorem Capped.memoryOrNew (h : s.Capped) (hmax : 0 < s.maxEntries) :
    (s.memoryOrNew.count : ℤ) ≤ s.maxEntries := by
  unfold TenantStore.memoryOrNew
  cases hs : s.memory with
  | none => exact hmax.le
  | some mem => exact h mem hs

omit [Hashlib] in
/-- Opening a store keeps it within the quota. -/
theorem Capped.opened (h : s.Capped) (hmax : 0 < s.maxEntries) : s.opened.Capped := by
  intro mem hmem
  rw [memory_opened] at hmem
  rw [maxEntries_opened, ← Option.some.inj hmem]
  exact h.memoryOrNew hmax

/-- Room that the check found is enough for one write. -/
theorem capped_stored (hmax : 0 < s.maxEntries) (hfull : ¬s.Full) (entry : MemoryEntry)
    (written : ℚ) : (s.stored entry written).Capped := by
  have hroom : (s.memoryOrNew.count : ℤ) < s.maxEntries := by
    unfold TenantStore.memoryOrNew
    cases hs : s.memory with
    | none => exact hmax
    | some mem => exact not_le.mp fun hle => hfull ⟨hmax, mem, hs, hle⟩
  intro mem hmem
  obtain rfl := Option.some.inj hmem
  have hone := s.memoryOrNew.count_write_le entry
  show ((s.memoryOrNew.write entry).2.count : ℤ) ≤ s.opened.maxEntries
  rw [maxEntries_opened]
  omega

omit [Hashlib] in
/-- A cleared store is within the quota. -/
theorem capped_cleared (hmax : 0 < s.maxEntries) : s.cleared.Capped := by
  intro mem hmem
  obtain ⟨old, -, rfl⟩ := Option.map_eq_some_iff.mp hmem
  exact hmax.le

/-- No call exceeds the quota `q`. -/
theorem capped_act {q : ℤ} (hq : 0 < q) (s : TenantStore) (c : TenantCall)
    (h : s.maxEntries = q ∧ s.Capped) : (s.act c).2.maxEntries = q ∧ (s.act c).2.Capped := by
  refine act_invariant (I := fun s => s.maxEntries = q ∧ s.Capped) ?_ ?_ ?_ ?_ s c h
  · rintro s now ⟨hmax, hcapped⟩
    exact ⟨(maxEntries_collected now s).trans hmax, hcapped.collected now⟩
  · rintro s ⟨hmax, hcapped⟩
    exact ⟨s.maxEntries_opened.trans hmax, hcapped.opened (hmax ▸ hq)⟩
  · rintro s entry written ⟨hmax, -⟩ hfull
    exact ⟨s.maxEntries_opened.trans hmax, capped_stored (hmax ▸ hq) hfull entry written⟩
  · rintro s ⟨hmax, -⟩
    exact ⟨hmax, capped_cleared (hmax ▸ hq)⟩

end TenantStore

namespace MultiTenantMemory

variable (m : MultiTenantMemory)

/-! ## The tenants there are -/

/-- One memory for each tenant. -/
def DistinctTenants (m : MultiTenantMemory) : Prop := (m.tenants.map Prod.fst).Nodup

omit [Hashlib] in
variable {m} in
/-- Looking a tenant up keeps the tenants distinct. -/
theorem DistinctTenants.getTenantMemory (h : m.DistinctTenants) (tid : String) :
    (m.getTenantMemory tid).2.DistinctTenants := by
  unfold MultiTenantMemory.getTenantMemory
  split
  · exact h
  · exact Dict.nodup_set h _ _

variable {m} in
/-- Expiry keeps the tenants distinct. -/
theorem DistinctTenants.gcTenant (h : m.DistinctTenants) (tid : String) (now : ℚ) :
    (m.gcTenant tid now).DistinctTenants := by
  unfold MultiTenantMemory.gcTenant
  split
  · exact h
  · dsimp only
    split
    · exact h
    · split
      · exact h
      · exact Dict.nodup_set h _ _

variable {m} in
/-- Every call keeps the tenants distinct. -/
theorem DistinctTenants.act (h : m.DistinctTenants) (c : TenantCall) :
    (c.act m).2.DistinctTenants := by
  cases c with
  | write entry t now written =>
    have hgc := h.gcTenant (tidOf t) now
    unfold TenantCall.act write
    dsimp only
    split
    · exact hgc
    · unfold storeEntry
      have hset := fun mem => Dict.nodup_set (hgc.getTenantMemory (tidOf t)) (tidOf t) mem
      dsimp only
      split
      · exact hset _
      · exact hset _
  | retrieve query k t role minConfidence now =>
    exact (h.gcTenant (tidOf t) now).getTenantMemory (tidOf t)
  | count t => exact h.getTenantMemory (tidOf t)
  | clear t =>
    cases t with
    | none =>
      show ((m.tenants.map fun p => (p.1, p.2.clear)).map Prod.fst).Nodup
      rw [List.map_map]
      exact h
    | some t =>
      unfold DistinctTenants TenantCall.act clear
      dsimp only
      split
      · exact h
      · exact Dict.nodup_set h _ _

/-- The tenants that the calls touch. -/
def touched (calls : List TenantCall) : Finset String :=
  (calls.filterMap TenantCall.touches).toFinset

/-- The tenants that have a memory were touched. -/
theorem tenants_run_subset (hnew : m.tenants = []) (calls : List TenantCall) :
    ((m.run calls).tenants.map Prod.fst).toFinset ⊆ touched calls := by
  intro tid htid
  have hsome : ((m.run calls).tenants.get? tid).isSome := by
    rw [Option.isSome_iff_ne_none]
    intro hnone
    obtain ⟨p, hp, rfl⟩ := List.mem_map.mp (List.mem_toFinset.mp htid)
    exact Dict.get?_eq_none_iff.mp hnone p hp rfl
  obtain ⟨u, hu, htouch⟩ := (m.isSome_memory_run_iff tid hnew calls).mp hsome
  rw [touched, List.mem_toFinset]
  exact List.mem_filterMap.mpr ⟨u, hu, htouch⟩

/-- Under the quota `q`, no tenant ever has more than `q` entries, and all of them together no more
than `q` for each tenant touched. -/
theorem count_le_quota (embed : String → List ℚ) {q : ℤ} (hq : 0 < q) (ttl : ℚ)
    (calls : List TenantCall) :
    let m := run { embed, maxEntriesPerTenant := q, ttlSeconds := ttl } calls
    (∀ tid mem, m.tenants.get? tid = some mem → (mem.count : ℤ) ≤ q) ∧
      (m.totalEntries : ℤ) ≤ q * (touched calls).card := by
  intro m
  have hcount : ∀ tid mem, m.tenants.get? tid = some mem → (mem.count : ℤ) ≤ q := by
    intro tid mem hmem
    have hinv : (m.store tid).maxEntries = q ∧ (m.store tid).Capped := by
      apply store_run_invariant (TenantStore.capped_act hq)
      exact ⟨rfl, fun mem hmem => absurd hmem (by simp [store, Dict.get?])⟩
    rw [← hinv.1]
    exact hinv.2 mem hmem
  refine ⟨hcount, ?_⟩
  -- The total counts each tenant once, as no tenant stands in the dictionary twice.
  have hdistinct : m.DistinctTenants :=
    Machine.run_invariant (I := DistinctTenants) (fun m c _ h => h.act c) List.nodup_nil
  have hsum : m.totalEntries ≤ m.tenants.length * q.toNat := by
    have hle : ∀ n ∈ m.tenants.map fun p => p.2.count, n ≤ q.toNat := by
      intro n hn
      obtain ⟨p, hp, rfl⟩ := List.mem_map.mp hn
      have hp := hcount p.1 p.2 (Dict.get?_eq_some_of_mem hdistinct hp)
      omega
    have htotal := List.sum_le_card_nsmul _ _ hle
    rwa [List.length_map, smul_eq_mul] at htotal
  have hcard : m.tenants.length ≤ (touched calls).card := by
    have hsub := Finset.card_le_card (tenants_run_subset
      { embed, maxEntriesPerTenant := q, ttlSeconds := ttl } rfl calls)
    rwa [List.toFinset_card_of_nodup hdistinct, List.length_map] at hsub
  have hbound : m.totalEntries ≤ (touched calls).card * q.toNat :=
    hsum.trans (Nat.mul_le_mul_right _ hcard)
  calc (m.totalEntries : ℤ) ≤ ((touched calls).card * q.toNat : ℕ) := by exact_mod_cast hbound
    _ = q * (touched calls).card := by
      rw [Nat.cast_mul, Int.toNat_of_nonneg hq.le, mul_comm]

omit [Hashlib] in
/-- A quota of one entry. -/
theorem count_le_quota_one :
    let _ := Hashlib.checksum
    let m := run { embed := fun _ => [], maxEntriesPerTenant := 1, ttlSeconds := 0 }
      [.write { text := "x" } none 0 0, .clear none, .write { text := "y" } none 1 1]
    (∀ tid mem, m.tenants.get? tid = some mem → (mem.count : ℤ) ≤ 1) ∧
      (m.totalEntries : ℤ) ≤ 1 * (touched
        [.write { text := "x" } none 0 0, .clear none, .write { text := "y" } none 1 1]).card := by
  intro _
  exact count_le_quota (fun _ => []) (by decide) 0 _

end MultiTenantMemory

end Chen
