import Chen.Persistence.TenantMemory

/-!
# The store of one tenant

`MultiTenantMemory` is a product of stores, one for each tenant: a call acts on the store of its
tenant, whatever the other stores hold, and leaves the others alone. Only `clear()` acts on all.
-/

namespace Chen

variable [Hashlib]

/-- What belongs to one tenant. The memory is there from the first call that looks for it, the
times from then on until the tenant is cleared. -/
structure TenantStore where
  tid : String
  embed : String → List ℚ
  maxEntries : ℤ
  ttlSeconds : ℚ
  memory : Option InMemoryMemory := none
  times : Option (Dict String ℚ) := none

namespace TenantStore

/-- The memory, or the one that would be created. -/
def memoryOrNew (s : TenantStore) : InMemoryMemory := s.memory.getD { embed := s.embed }

/-- The times, as far as they are there. -/
def knownTimes (s : TenantStore) : Dict String ℚ := s.times.getD []

/-- The store with its memory created. -/
def opened (s : TenantStore) : TenantStore :=
  match s.memory with
  | some _ => s
  | none => { s with memory := some s.memoryOrNew, times := some [] }

/-- The ids to collect. -/
def expired (now : ℚ) (s : TenantStore) : List String :=
  if s.ttlSeconds ≤ 0 then [] else expiredIds s.ttlSeconds now s.knownTimes

/-- The store without what has expired. -/
def collected (now : ℚ) (s : TenantStore) : TenantStore :=
  match s.memory with
  | none => s
  | some mem =>
    if s.expired now = [] then s
    else
      { s with
        memory := some (mem.rebuilt (mem.entries.filter (·.id ∉ s.expired now)))
        times := some ((s.expired now).foldl Dict.erase s.knownTimes) }

/-- The quota is reached. -/
def Full (s : TenantStore) : Prop :=
  0 < s.maxEntries ∧ ∃ mem ∈ s.memory, s.maxEntries ≤ mem.count

instance (s : TenantStore) : Decidable s.Full := by
  unfold Full
  infer_instance

/-- The store after an entry has been stored. -/
def stored (entry : MemoryEntry) (written : ℚ) (s : TenantStore) : TenantStore :=
  { s.opened with
    memory := some (s.memoryOrNew.write entry).2
    times := s.opened.times.map (·.set entry.id written) }

/-- The result of storing an entry: without a table of times there is a `KeyError`. -/
def storedResult (entry : MemoryEntry) (s : TenantStore) : Except Exn String :=
  match s.opened.times with
  | none => .error (.other "KeyError" s.tid)
  | some _ => .ok entry.id

def write (entry : MemoryEntry) (now written : ℚ) (s : TenantStore) :
    Except Exn String × TenantStore :=
  let s := s.collected now
  if s.Full then (.error (quotaExceededError s.tid s.maxEntries), s)
  else (s.storedResult entry, s.stored entry written)

def cleared (s : TenantStore) : TenantStore :=
  { s with memory := s.memory.map InMemoryMemory.clear, times := none }

/-- A call of the tenant. -/
def act (s : TenantStore) : TenantCall → TenantResult × TenantStore
  | .write entry _ now written =>
    (.ofExcept .id (s.write entry now written).1, (s.write entry now written).2)
  | .retrieve query k _ role minConfidence now =>
    (.ofExcept .entries
        ((s.collected now).memoryOrNew.checkedRetrieve query k role minConfidence),
      (s.collected now).opened)
  | .count _ => (.number s.memoryOrNew.count, s.opened)
  | .clear _ => (.none, s.cleared)

/-! ## What every operation keeps -/

/-- What is fixed when a store is made. -/
def config (s : TenantStore) : String × (String → List ℚ) × ℤ × ℚ :=
  (s.tid, s.embed, s.maxEntries, s.ttlSeconds)

omit [Hashlib] in
@[simp] theorem config_opened (s : TenantStore) : s.opened.config = s.config := by
  unfold opened
  split <;> rfl

@[simp] theorem config_collected (now : ℚ) (s : TenantStore) :
    (s.collected now).config = s.config := by
  unfold collected
  split
  · rfl
  · split <;> rfl

@[simp] theorem config_stored (entry : MemoryEntry) (written : ℚ) (s : TenantStore) :
    (s.stored entry written).config = s.config := s.config_opened

/-- What collecting, opening, storing below the quota and clearing keep, every call keeps. -/
theorem act_invariant {I : TenantStore → Prop}
    (hcollected : ∀ s now, I s → I (s.collected now)) (hopened : ∀ s, I s → I s.opened)
    (hstored : ∀ s entry written, I s → ¬s.Full → I (s.stored entry written))
    (hcleared : ∀ s, I s → I s.cleared) (s : TenantStore) (c : TenantCall) (h : I s) :
    I (s.act c).2 := by
  cases c with
  | write entry t now written =>
    unfold act write
    dsimp only
    split
    · exact hcollected s now h
    · next hfull => exact hstored _ entry written (hcollected s now h) hfull
  | retrieve query k t role minConfidence now => exact hopened _ (hcollected s now h)
  | count t => exact hopened s h
  | clear t => exact hcleared s h

/-- No call changes the settings of a store. -/
theorem config_act (s : TenantStore) (c : TenantCall) : (s.act c).2.config = s.config := by
  refine act_invariant (I := fun s' => s'.config = s.config) ?_ ?_ ?_ ?_ s c rfl
  · exact fun s' now h => (s'.config_collected now).trans h
  · exact fun s' h => s'.config_opened.trans h
  · exact fun s' entry written h _ => (s'.config_stored entry written).trans h
  · exact fun _ h => h

/-- Expiry does not change the quota. -/
theorem maxEntries_collected (now : ℚ) (s : TenantStore) :
    (s.collected now).maxEntries = s.maxEntries :=
  congrArg (·.2.2.1) (s.config_collected now)

omit [Hashlib] in
/-- Opening does not change the quota. -/
theorem maxEntries_opened (s : TenantStore) : s.opened.maxEntries = s.maxEntries :=
  congrArg (·.2.2.1) s.config_opened

omit [Hashlib] in
/-- An opened store has a memory. -/
theorem memory_opened (s : TenantStore) : s.opened.memory = some s.memoryOrNew := by
  unfold opened memoryOrNew
  cases h : s.memory with
  | none => rfl
  | some mem => exact h

/-- Expiry neither makes a memory nor removes one. -/
theorem isSome_memory_collected (now : ℚ) (s : TenantStore) :
    (s.collected now).memory.isSome = s.memory.isSome := by
  unfold collected
  cases h : s.memory with
  | none => rw [h]
  | some mem =>
    dsimp only
    split
    · rw [h]
    · rfl

end TenantStore

/-- The call acts on the store of the tenant. -/
def TenantCall.actsOn (tid : String) (c : TenantCall) : Bool :=
  match c with
  | .clear none => true
  | c => tidOf c.tenantId = tid

namespace MultiTenantMemory

/-- The store of a tenant. -/
def store (tid : String) (m : MultiTenantMemory) : TenantStore where
  tid := tid
  embed := m.embed
  maxEntries := m.maxEntriesPerTenant
  ttlSeconds := m.ttlSeconds
  memory := m.tenants.get? tid
  times := m.tenantEntryTimes.get? tid

variable (m : MultiTenantMemory) {tid tid' : String}

/-! ## Parts of calls -/

omit [Hashlib] in
/-- `_get_tenant_memory` opens the store of its tenant. -/
theorem getTenantMemory_spec (tid : String) :
    (m.getTenantMemory tid).1 = (m.store tid).memoryOrNew ∧
      (m.getTenantMemory tid).2.store tid = (m.store tid).opened := by
  cases h : m.tenants.get? tid with
  | none =>
    simp [getTenantMemory, store, TenantStore.opened, TenantStore.memoryOrNew, h,
      Dict.get?_set_self]
  | some mem => simp [getTenantMemory, store, TenantStore.opened, TenantStore.memoryOrNew, h]

omit [Hashlib] in
/-- It leaves the other tenants alone. -/
theorem getTenantMemory_of_ne (h : tid' ≠ tid) :
    (m.getTenantMemory tid).2.store tid' = m.store tid' := by
  cases hget : m.tenants.get? tid with
  | none => simp [getTenantMemory, store, hget, Dict.get?_set_of_ne _ h]
  | some mem => simp [getTenantMemory, hget]

/-- `_gc_tenant` expires the entries of its tenant. -/
theorem gcTenant_spec (now : ℚ) :
    (m.gcTenant tid now).store tid = (m.store tid).collected now := by
  unfold gcTenant TenantStore.collected TenantStore.expired TenantStore.knownTimes
  by_cases httl : m.ttlSeconds ≤ 0
  · cases hget : m.tenants.get? tid <;> simp [store, httl, hget]
  · cases hget : m.tenants.get? tid with
    | none => simp [store, httl, hget]
    | some mem =>
      by_cases hexp : expiredIds m.ttlSeconds now ((m.tenantEntryTimes.get? tid).getD []) = []
      · simp [store, httl, hget, hexp]
      · simp [store, httl, hget, hexp, Dict.get?_set_self]

/-- It leaves the other tenants alone. -/
theorem gcTenant_of_ne (now : ℚ) (h : tid' ≠ tid) :
    (m.gcTenant tid now).store tid' = m.store tid' := by
  unfold gcTenant
  by_cases httl : m.ttlSeconds ≤ 0
  · rw [if_pos httl]
  · rw [if_neg httl]
    cases hget : m.tenants.get? tid with
    | none => rfl
    | some mem =>
      dsimp only
      split
      · rfl
      · simp [store, Dict.get?_set_of_ne _ h]

omit [Hashlib] in
/-- The quota is checked on the tenant's own store. -/
theorem checkQuota_spec :
    m.checkQuota tid = if (m.store tid).Full
      then .error (quotaExceededError tid m.maxEntriesPerTenant) else .ok () := by
  unfold checkQuota
  by_cases hmax : m.maxEntriesPerTenant ≤ 0
  · rw [if_pos hmax, if_neg fun hfull : (m.store tid).Full => absurd hfull.1 (not_lt.mpr hmax)]
  · rw [if_neg hmax]
    cases hget : m.tenants.get? tid with
    | none => simp [TenantStore.Full, store, hget]
    | some mem => simp [TenantStore.Full, store, hget, not_le.mp hmax]

/-- Storing an entry acts on the tenant's own store. -/
theorem storeEntry_spec (tid : String) (entry : MemoryEntry) (written : ℚ) :
    (m.storeEntry entry tid written).1 = (m.store tid).storedResult entry ∧
      (m.storeEntry entry tid written).2.store tid = (m.store tid).stored entry written := by
  obtain ⟨hmem, hstore⟩ := m.getTenantMemory_spec tid
  unfold storeEntry TenantStore.storedResult TenantStore.stored
  rw [← hstore, ← hmem]
  cases htimes : (m.getTenantMemory tid).2.tenantEntryTimes.get? tid with
  | none => simp [store, htimes, Dict.get?_set_self]
  | some times => simp [store, htimes, Dict.get?_set_self]

/-- It leaves the other tenants alone. -/
theorem storeEntry_of_ne (entry : MemoryEntry) (written : ℚ) (h : tid' ≠ tid) :
    (m.storeEntry entry tid written).2.store tid' = m.store tid' := by
  rw [← m.getTenantMemory_of_ne h]
  unfold storeEntry
  dsimp only
  split <;> simp [store, Dict.get?_set_of_ne _ h]

/-! ## Calls -/

/-- `write` acts on the store of its tenant. -/
theorem write_spec (entry : MemoryEntry) (tenantId : Option String) (now written : ℚ) :
    (m.write entry tenantId now written).1 =
        ((m.store (tidOf tenantId)).write entry now written).1 ∧
      (m.write entry tenantId now written).2.store (tidOf tenantId) =
        ((m.store (tidOf tenantId)).write entry now written).2 := by
  unfold write TenantStore.write
  rw [← gcTenant_spec]
  dsimp only
  rw [checkQuota_spec]
  by_cases hfull : ((m.gcTenant (tidOf tenantId) now).store (tidOf tenantId)).Full
  · rw [if_pos hfull, if_pos hfull]
    exact ⟨rfl, rfl⟩
  · rw [if_neg hfull, if_neg hfull]
    exact storeEntry_spec _ _ entry written

/-- `write` leaves the other tenants alone. -/
theorem write_of_ne (entry : MemoryEntry) (tenantId : Option String) (now written : ℚ)
    (h : tid ≠ tidOf tenantId) :
    (m.write entry tenantId now written).2.store tid = m.store tid := by
  rw [← m.gcTenant_of_ne now h]
  unfold write
  dsimp only
  split
  · rfl
  · exact storeEntry_of_ne _ entry written h

omit [Hashlib] in
/-- `clear` without a tenant clears every store. -/
theorem clear_all_spec : (m.clear none).store tid = (m.store tid).cleared := by
  simp only [clear, store, TenantStore.cleared, Dict.get?_map_values]
  rfl

omit [Hashlib] in
/-- `clear` with a tenant clears the store of this tenant. -/
theorem clear_spec (t : String) :
    (m.clear (some t)).store (tidOf (some t)) = (m.store (tidOf (some t))).cleared := by
  simp only [clear, store, TenantStore.cleared, Dict.get?_erase_self]
  cases hget : m.tenants.get? (tidOf (some t)) with
  | none => simp [hget]
  | some mem => simp [Dict.get?_set_self]

omit [Hashlib] in
/-- It leaves the other tenants alone. -/
theorem clear_of_ne (t : String) (h : tid ≠ tidOf (some t)) :
    (m.clear (some t)).store tid = m.store tid := by
  simp only [clear, store, Dict.get?_erase_of_ne _ h]
  cases hget : m.tenants.get? (tidOf (some t)) with
  | none => rfl
  | some mem => simp [Dict.get?_set_of_ne _ h]

end MultiTenantMemory

namespace TenantCall

open MultiTenantMemory

variable {tid : String} {c : TenantCall}

omit [Hashlib] in
theorem tidOf_some {t : String} (h : t ≠ "") : tidOf (some t) = t := if_neg h

omit [Hashlib] in
/-- A call for a tenant acts on the store of that tenant only. -/
theorem actsOn_eq {t : String} (ht : t ≠ "") (h : c.tenantId = some t) :
    c.actsOn tid = decide (t = tid) := by
  have htid : tidOf c.tenantId = t := by rw [h, tidOf_some ht]
  cases c with
  | clear t' =>
    cases h
    exact congrArg (fun t => decide (t = tid)) htid
  | write => exact congrArg (fun t => decide (t = tid)) htid
  | retrieve => exact congrArg (fun t => decide (t = tid)) htid
  | count => exact congrArg (fun t => decide (t = tid)) htid

/-- A call acts on the store of its tenant as if there were no others. -/
theorem act_own (m : MultiTenantMemory) (c : TenantCall) (h : c.actsOn tid) :
    (c.act m).1 = ((m.store tid).act c).1 ∧ (c.act m).2.store tid = ((m.store tid).act c).2 := by
  cases c with
  | write entry t now written =>
    obtain rfl : tidOf t = tid := of_decide_eq_true h
    obtain ⟨hresult, hstore⟩ := m.write_spec entry t now written
    exact ⟨congrArg (TenantResult.ofExcept .id) hresult, hstore⟩
  | retrieve query k t role minConfidence now =>
    obtain rfl : tidOf t = tid := of_decide_eq_true h
    -- what `retrieve` reads is the collected memory, which it leaves in the dictionary
    obtain ⟨hmem, hstore⟩ := (m.gcTenant (tidOf t) now).getTenantMemory_spec (tidOf t)
    rw [gcTenant_spec] at hmem hstore
    refine ⟨?_, hstore⟩
    rw [TenantStore.act, ← hmem]
    rfl
  | count t =>
    obtain rfl : tidOf t = tid := of_decide_eq_true h
    obtain ⟨hmem, hstore⟩ := m.getTenantMemory_spec (tidOf t)
    refine ⟨?_, hstore⟩
    rw [TenantStore.act, ← hmem]
    rfl
  | clear t =>
    cases t with
    | none => exact ⟨rfl, m.clear_all_spec⟩
    | some t =>
      obtain rfl : tidOf (some t) = tid := of_decide_eq_true h
      exact ⟨rfl, m.clear_spec t⟩

/-- A call leaves the stores of other tenants alone. -/
theorem act_other (m : MultiTenantMemory) (c : TenantCall) (h : ¬c.actsOn tid) :
    (c.act m).2.store tid = m.store tid := by
  cases c with
  | write entry t now written =>
    have hne : tid ≠ tidOf t := fun heq => h (decide_eq_true heq.symm)
    exact m.write_of_ne entry t now written hne
  | retrieve query k t role minConfidence now =>
    have hne : tid ≠ tidOf t := fun heq => h (decide_eq_true heq.symm)
    rw [← m.gcTenant_of_ne now hne]
    exact getTenantMemory_of_ne _ hne
  | count t =>
    have hne : tid ≠ tidOf t := fun heq => h (decide_eq_true heq.symm)
    exact m.getTenantMemory_of_ne hne
  | clear t =>
    cases t with
    | none => exact absurd rfl h
    | some t => exact m.clear_of_ne t fun heq => h (decide_eq_true heq.symm)

end TenantCall

namespace MultiTenantMemory

/-- The memories after a series of calls. -/
def run (m : MultiTenantMemory) (calls : List TenantCall) : MultiTenantMemory :=
  Machine.run (Machine.next TenantCall.act) m calls

/-- The results of a series of calls, each with its call. -/
def results (m : MultiTenantMemory) (calls : List TenantCall) :
    List (TenantCall × TenantResult) :=
  Machine.answers TenantCall.act m calls

/-- The store of a tenant after a run is that after the calls that act on it. -/
theorem store_run (m : MultiTenantMemory) (tid : String) (calls : List TenantCall) :
    (m.run calls).store tid =
      Machine.run (Machine.next TenantStore.act) (m.store tid)
        (calls.filter (TenantCall.actsOn tid)) :=
  Machine.view_run (fun m c h => (TenantCall.act_own m c h).2)
    (fun m c h => TenantCall.act_other m c h) m calls

/-- What every call of a store keeps, the store of a tenant keeps in every run. -/
theorem store_run_invariant {I : TenantStore → Prop} (hact : ∀ s c, I s → I (s.act c).2)
    {m : MultiTenantMemory} {tid : String} (h : I (m.store tid)) (calls : List TenantCall) :
    I ((m.run calls).store tid) := by
  rw [store_run]
  exact Machine.run_invariant (fun s c _ => hact s c) h

/-- The results of the calls that act on a tenant are those of its store. -/
theorem results_filter (m : MultiTenantMemory) (tid : String) (calls : List TenantCall) :
    (m.results calls).filter (·.1.actsOn tid) =
      Machine.answers TenantStore.act (m.store tid) (calls.filter (TenantCall.actsOn tid)) :=
  Machine.answers_filter (fun m c h => TenantCall.act_own m c h)
    (fun m c h => TenantCall.act_other m c h) m calls

/-! ## Isolation -/

/-- Without the calls of another tenant, every call of a tenant has the result that it has with
them. -/
theorem results_without (m : MultiTenantMemory) {A B : String} (hAB : A ≠ B) (hA : A ≠ "")
    (hB : B ≠ "") (calls : List TenantCall) :
    (m.results (calls.filter (·.tenantId ≠ some B))).filter (·.1.tenantId = some A) =
      (m.results calls).filter (·.1.tenantId = some A) := by
  have hown : ∀ cs : List TenantCall, (m.results cs).filter (·.1.tenantId = some A) =
      (Machine.answers TenantStore.act (m.store A) (cs.filter (TenantCall.actsOn A))).filter
        (·.1.tenantId = some A) := by
    intro cs
    rw [← results_filter, List.filter_filter]
    apply List.filter_congr
    rintro ⟨c, r⟩ -
    by_cases hc : c.tenantId = some A
    · simp [hc, TenantCall.actsOn_eq hA hc]
    · simp [hc]
  have hfilter : (calls.filter (·.tenantId ≠ some B)).filter (TenantCall.actsOn A) =
      calls.filter (TenantCall.actsOn A) := by
    rw [List.filter_filter]
    apply List.filter_congr
    intro c _
    by_cases hc : c.tenantId = some B
    · simp [TenantCall.actsOn_eq hB hc, hAB.symm]
    · simp [hc]
  rw [hown, hown, hfilter]

omit [Hashlib] in
/-- Two tenants and one write of each. -/
theorem results_without_write :
    let _ := Hashlib.checksum
    let m : MultiTenantMemory := { embed := fun _ => [], maxEntriesPerTenant := 1 }
    let calls := [TenantCall.write { text := "x" } (some "b") 0 0, .count (some "a"),
      .write { text := "x" } (some "a") 0 0, .write { text := "y" } (some "a") 1 1]
    (m.results (calls.filter (·.tenantId ≠ some "b"))).filter (·.1.tenantId = some "a") =
      (m.results calls).filter (·.1.tenantId = some "a") := by
  intro _ m calls
  exact results_without m (by decide) (by decide) (by decide) calls

end MultiTenantMemory

end Chen
