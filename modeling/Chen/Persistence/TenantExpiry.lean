import Chen.Persistence.TenantWrite
import Mathlib.Tactic.Linarith

/-!
# Expiry

An entry expires by the time recorded for its id. As long as every write keeps its contract, each
entry has the time of its last write on record, so that nothing is retrieved that was last written
longer than the time to live before.
-/

namespace Chen

variable [Hashlib]

namespace TenantResult

/-- The result of a write that the quota refused. -/
def isQuotaExceeded : TenantResult → Bool
  | raised (.other "QuotaExceededError" _) => true
  | _ => false

end TenantResult

/-- The time of the write, if the call is a write of the key for the tenant that was stored. -/
def writtenAt (tid : String) (key : String × String × String) :
    TenantCall × TenantResult → Option ℚ
  | (.write entry t _ written, result) =>
    if tidOf t = tid ∧ entry.key = key ∧ !result.isQuotaExceeded then some written else none
  | _ => none

/-- The time of the last write of the key for the tenant. -/
def lastWritten (tid : String) (results : List (TenantCall × TenantResult))
    (key : String × String × String) : Option ℚ :=
  (results.filterMap (writtenAt tid key)).getLast?

omit [Hashlib] in
/-- One more call may be the last that wrote a key. -/
theorem lastWritten_append_singleton (tid : String) (results : List (TenantCall × TenantResult))
    (r : TenantCall × TenantResult) :
    lastWritten tid (results ++ [r]) =
      fun key => (writtenAt tid key r).or (lastWritten tid results key) := by
  funext key
  rw [lastWritten, List.filterMap_append, List.getLast?_append]
  cases h : writtenAt tid key r <;> simp [h, lastWritten]

omit [Hashlib] in
/-- A call that writes nothing for the tenant leaves the last writes as they are. -/
theorem lastWritten_append_of_none {tid : String} {r : TenantCall × TenantResult}
    (h : ∀ key, writtenAt tid key r = none) (results : List (TenantCall × TenantResult)) :
    lastWritten tid (results ++ [r]) = lastWritten tid results := by
  rw [lastWritten_append_singleton]
  funext key
  rw [h, Option.none_or]

omit [Hashlib] in
/-- A call that does not act on the tenant writes nothing for it. -/
theorem writtenAt_of_not_actsOn {tid : String} {c : TenantCall} (h : ¬c.actsOn tid)
    (result : TenantResult) (key : String × String × String) :
    writtenAt tid key (c, result) = none := by
  cases c with
  | write entry t now written =>
    have hne : tidOf t ≠ tid := fun heq => h (decide_eq_true heq)
    simp [writtenAt, hne]
  | retrieve => rfl
  | count => rfl
  | clear => rfl

/-- A memory that is rebuilt from some of its entries is indexed. -/
theorem InMemoryMemory.Indexed.rebuilt {m : InMemoryMemory} (h : m.Indexed)
    {kept : List MemoryEntry} (hkept : kept.Sublist m.entries) : (m.rebuilt kept).Indexed := by
  have hnodup : (kept.map MemoryEntry.id).Nodup := h.nodup.sublist (hkept.map _)
  refine ⟨?_, hnodup⟩
  have hkeys : ((kept.map MemoryEntry.id).zipIdx.map Prod.fst).Nodup := by
    rwa [List.zipIdx_map_fst]
  show (kept.map MemoryEntry.id).zipIdx.foldl (fun d p => Dict.set d p.1 p.2) [] = _
  rw [Dict.foldl_set_eq_append hkeys fun _ _ => rfl, List.nil_append]
  rfl

namespace TenantStore

variable {s : TenantStore} {last : String × String × String → Option ℚ}

/-- The memory is indexed, and every entry has the time of its last write on record. -/
structure Timed (last : String × String × String → Option ℚ) (s : TenantStore) : Prop where
  indexed : ∀ mem ∈ s.memory, mem.Indexed
  times : ∀ mem ∈ s.memory, ∀ e ∈ mem.entries,
    ∃ times ∈ s.times, ∃ w, times.get? e.id = some w ∧ last e.key = some w

omit [Hashlib] in
/-- An id that is not erased keeps its time. -/
theorem get?_foldl_erase {times : Dict String ℚ} {ids : List String} {eid : String}
    (h : eid ∉ ids) : (ids.foldl Dict.erase times).get? eid = times.get? eid := by
  induction ids generalizing times with
  | nil => rfl
  | cons i ids ih =>
    rw [List.mem_cons, not_or] at h
    rw [List.foldl_cons, ih h.2, Dict.get?_erase_of_ne _ h.1]

/-- What is left after a collection: entries that were there, with times that have not expired. -/
theorem mem_collected {now : ℚ} {mem : InMemoryMemory} (hmem : mem ∈ (s.collected now).memory) :
    ∃ old ∈ s.memory, (mem = old ∨ mem = old.rebuilt (old.entries.filter (·.id ∉ s.expired now))) ∧
      ∀ e ∈ mem.entries, e ∈ old.entries ∧ e.id ∉ s.expired now := by
  unfold collected at hmem
  cases hs : s.memory with
  | none =>
    rw [hs] at hmem
    rw [Option.mem_def, hs] at hmem
    cases hmem
  | some old =>
    rw [hs] at hmem
    dsimp only at hmem
    split at hmem
    · next hexp =>
      rw [Option.mem_def, hs, Option.some.injEq] at hmem
      subst hmem
      exact ⟨old, rfl, .inl rfl, fun e he => ⟨he, by simp [hexp]⟩⟩
    · obtain rfl := Option.some.inj hmem
      refine ⟨old, rfl, .inr rfl, fun e he => ?_⟩
      simpa using List.mem_filter.mp he

/-- An id that has not expired keeps its time. -/
theorem get?_times_collected {times : Dict String ℚ} (h : times ∈ s.times) {now : ℚ} {eid : String}
    (heid : eid ∉ s.expired now) :
    ∃ times' ∈ (s.collected now).times, times'.get? eid = times.get? eid := by
  unfold collected
  split
  · exact ⟨times, h, rfl⟩
  · split
    · exact ⟨times, h, rfl⟩
    · refine ⟨_, rfl, ?_⟩
      rw [get?_foldl_erase heid, knownTimes, Option.mem_def.mp h]
      rfl

omit [Hashlib] in
/-- A time on record that has not expired is within the time to live. -/
theorem le_of_not_expired (httl : 0 < s.ttlSeconds) {times : Dict String ℚ} (h : times ∈ s.times)
    {eid : String} {w now : ℚ} (hw : times.get? eid = some w) (heid : eid ∉ s.expired now) :
    now - s.ttlSeconds ≤ w := by
  by_contra hlt
  apply heid
  have hexpired : s.ttlSeconds < now - w := by linarith
  rw [expired, if_neg (not_le.mpr httl), knownTimes, Option.mem_def.mp h]
  apply List.mem_map.mpr
  exact ⟨(eid, w), List.mem_filter.mpr ⟨Dict.mem_of_get?_eq_some hw, by simpa using hexpired⟩, rfl⟩

/-- Expiry keeps the times right. -/
theorem Timed.collected (h : s.Timed last) (now : ℚ) : (s.collected now).Timed last := by
  constructor
  · intro mem hmem
    obtain ⟨old, hold, rfl | rfl, -⟩ := mem_collected hmem
    · exact h.indexed _ hold
    · exact (h.indexed _ hold).rebuilt List.filter_sublist
  · intro mem hmem e he
    obtain ⟨old, hold, -, hentries⟩ := mem_collected hmem
    obtain ⟨heold, hkept⟩ := hentries e he
    obtain ⟨times, htimes, w, hw, hlast⟩ := h.times old hold e heold
    obtain ⟨times', htimes', hget⟩ := get?_times_collected htimes hkept
    exact ⟨times', htimes', w, hget.trans hw, hlast⟩

/-- After a collection every entry was last written within the time to live. -/
theorem Timed.fresh (h : s.Timed last) (httl : 0 < s.ttlSeconds) {now : ℚ} {mem : InMemoryMemory}
    (hmem : mem ∈ (s.collected now).memory) {e : MemoryEntry} (he : e ∈ mem.entries) :
    ∃ w, last e.key = some w ∧ now - s.ttlSeconds ≤ w := by
  obtain ⟨old, hold, -, hentries⟩ := mem_collected hmem
  obtain ⟨heold, hkept⟩ := hentries e he
  obtain ⟨times, htimes, w, hw, hlast⟩ := h.times old hold e heold
  exact ⟨w, hlast, le_of_not_expired httl htimes hw hkept⟩

/-- The memory of a store whose times are right is indexed. -/
theorem Timed.memoryOrNew (h : s.Timed last) : s.memoryOrNew.Indexed := by
  unfold TenantStore.memoryOrNew
  cases hs : s.memory with
  | none => exact InMemoryMemory.Indexed.clear { embed := s.embed }
  | some mem => exact h.indexed mem hs

/-- Opening a store keeps its times right. -/
theorem Timed.opened (h : s.Timed last) : s.opened.Timed last := by
  cases hs : s.memory with
  | none =>
    constructor
    · intro mem hmem
      rw [memory_opened] at hmem
      exact Option.some.inj hmem ▸ h.memoryOrNew
    · intro mem hmem e he
      rw [memory_opened, Option.mem_def, Option.some.injEq, TenantStore.memoryOrNew, hs] at hmem
      subst hmem
      cases he
  | some mem =>
    have hopened : s.opened = s := by
      unfold TenantStore.opened
      rw [hs]
    rwa [hopened]

/-- A cleared store has no entry without a time. -/
theorem Timed.cleared (s : TenantStore) (last : String × String × String → Option ℚ) :
    s.cleared.Timed last := by
  constructor
  · intro mem hmem
    obtain ⟨old, -, rfl⟩ := Option.map_eq_some_iff.mp hmem
    exact InMemoryMemory.Indexed.clear old
  · intro mem hmem e he
    obtain ⟨old, -, rfl⟩ := Option.map_eq_some_iff.mp hmem
    cases he

/-- A write that keeps its contract puts its time on record. -/
theorem Timed.stored (h : s.Timed last) (htimes : ¬s.Orphaned) {entry : MemoryEntry}
    (hown : s.memoryOrNew.FindsOwn entry) {written : ℚ}
    {last' : String × String × String → Option ℚ} (hself : last' entry.key = some written)
    (hother : ∀ key, key ≠ entry.key → last' key = last key) :
    (s.stored entry written).Timed last' := by
  obtain ⟨times, htimes⟩ := Option.isSome_iff_exists.mp (isSome_times_opened_iff.mpr htimes)
  have hset : times.set entry.id written ∈ (s.stored entry written).times := by
    show s.opened.times.map (·.set entry.id written) = some _
    rw [htimes]
    rfl
  constructor
  · intro mem hmem
    exact Option.some.inj hmem ▸ h.memoryOrNew.write hown
  · intro mem hmem e he
    obtain rfl := Option.some.inj hmem
    refine ⟨_, hset, ?_⟩
    rcases h.memoryOrNew.mem_write hown he with hkey | ⟨hold, hid⟩
    · rw [MemoryEntry.id_of_key_eq hkey, hkey]
      exact ⟨written, Dict.get?_set_self .., hself⟩
    · -- any other entry has its time under its own id
      obtain ⟨times', htimes', w, hw, hlast⟩ :=
        h.opened.times s.memoryOrNew s.memory_opened e hold
      obtain rfl : times = times' := Option.some.inj (htimes.symm.trans htimes')
      refine ⟨w, (Dict.get?_set_of_ne _ hid _).trans hw, ?_⟩
      rw [hother _ fun hkey => hid (MemoryEntry.id_of_key_eq hkey), hlast]

/-- A write that keeps its contract keeps the times on record those of the last writes. -/
theorem Timed.write (h : s.Timed last) {entry : MemoryEntry} {t : Option String} {now : ℚ}
    (hsafe : (s.collected now).Full ∨
      (¬(s.collected now).Orphaned ∧ (s.collected now).memoryOrNew.FindsOwn entry))
    (written : ℚ) :
    (s.write entry now written).2.Timed fun key =>
      (writtenAt (tidOf t) key
        (.write entry t now written, .ofExcept .id (s.write entry now written).1)).or
          (last key) := by
  have hcollected := h.collected now
  unfold TenantStore.write
  dsimp only
  by_cases hfull : (s.collected now).Full
  · -- the quota refuses the write, and its result says so
    rw [if_pos hfull]
    simpa [writtenAt, TenantResult.ofExcept, TenantResult.isQuotaExceeded, quotaExceededError]
      using hcollected
  · obtain ⟨htimes, hown⟩ := hsafe.resolve_left hfull
    rw [if_neg hfull, (storedResult_eq_ok_iff entry).mpr htimes]
    apply hcollected.stored htimes hown
    · simp [writtenAt, TenantResult.ofExcept, TenantResult.isQuotaExceeded]
    · intro key hkey
      simp [writtenAt, Ne.symm hkey]

end TenantStore

namespace MultiTenantMemory

/-- Every write for the tenant keeps its contract: at each of them the quota is reached, or else the
tenant was not cleared after use and the id of the entry refers to nothing else. -/
def SafeWrites (tid : String) (m : MultiTenantMemory) (calls : List TenantCall) : Prop :=
  ∀ before entry t now written, before ++ [.write entry t now written] <+: calls → tidOf t = tid →
    let s := ((m.run before).store tid).collected now
    s.Full ∨ (¬TenantCall.ClearedAfterUse tid before ∧ s.memoryOrNew.FindsOwn entry)

variable {m : MultiTenantMemory} {tid : String}

/-- The result of one more call. -/
theorem results_append_singleton (m : MultiTenantMemory) (calls : List TenantCall)
    (c : TenantCall) :
    m.results (calls ++ [c]) = m.results calls ++ [(c, (c.act (m.run calls)).1)] :=
  Machine.answers_append m calls [c]

/-- Along a run whose writes keep their contract, the times on record are those of the last
writes. -/
theorem timed_run (hnew : m.tenants = []) {calls : List TenantCall}
    (hsafe : m.SafeWrites tid calls) :
    ((m.run calls).store tid).Timed (lastWritten tid (m.results calls)) := by
  induction calls using List.reverseRecOn with
  | nil =>
    constructor <;> exact fun mem hmem => absurd hmem (by simp [run, store, hnew, Dict.get?])
  | append_singleton calls c ih =>
    have hbefore := ih fun before entry t now written hpre =>
      hsafe before entry t now written (hpre.trans (List.prefix_append _ _))
    rw [run_append_singleton, results_append_singleton]
    by_cases hc : c.actsOn tid
    · obtain ⟨hresult, hstore⟩ := TenantCall.act_own (m.run calls) c hc
      rw [hstore]
      cases c with
      | write entry t now written =>
        obtain rfl : tidOf t = tid := of_decide_eq_true hc
        -- a store that is not orphaned takes the time with the entry
        have hcontract := hsafe calls entry t now written List.prefix_rfl rfl
        dsimp only at hcontract
        rw [← m.orphaned_run_iff _ hnew, ← TenantStore.orphaned_collected_iff now] at hcontract
        rw [lastWritten_append_singleton, hresult]
        exact hbefore.write hcontract written
      | retrieve query k t role minConfidence now =>
        rw [lastWritten_append_of_none fun _ => rfl]
        exact (hbefore.collected now).opened
      | count t =>
        rw [lastWritten_append_of_none fun _ => rfl]
        exact hbefore.opened
      | clear t => exact TenantStore.Timed.cleared _ _
    · rw [TenantCall.act_other _ c hc,
        lastWritten_append_of_none (writtenAt_of_not_actsOn hc _)]
      exact hbefore

/-- Under a time to live, and as long as every write for the tenant keeps its contract, what is
retrieved was last written within the time to live. -/
theorem retrieve_fresh (embed : String → List ℚ) (maxEntries : ℤ) {ttl : ℚ} (httl : 0 < ttl)
    (calls : List TenantCall) (query : String) (k : ℤ) (t role : Option String)
    (minConfidence now : ℚ)
    (hsafe : SafeWrites (tidOf t) { embed, maxEntriesPerTenant := maxEntries, ttlSeconds := ttl }
      calls) :
    let m : MultiTenantMemory := { embed, maxEntriesPerTenant := maxEntries, ttlSeconds := ttl }
    ∀ es, ((m.run calls).retrieve query k t role minConfidence now).1 = .ok es →
      ∀ e ∈ es, ∃ w, lastWritten (tidOf t) (m.results calls) e.key = some w ∧ now - ttl ≤ w := by
  intro m es hes e he
  have htimed : ((m.run calls).store (tidOf t)).Timed (lastWritten (tidOf t) (m.results calls)) :=
    timed_run rfl hsafe
  have hconfig : ((m.run calls).store (tidOf t)).ttlSeconds = ttl := by
    refine store_run_invariant (I := fun s => s.ttlSeconds = ttl) ?_ rfl calls
    exact fun s c h => (congrArg (·.2.2.2) (s.config_act c)).trans h
  -- `retrieve` collects first, so that it reads a memory of entries that are fresh.
  have hmem := ((m.run calls).gcTenant (tidOf t) now).getTenantMemory_spec (tidOf t)
  rw [gcTenant_spec] at hmem
  have hstored : e ∈ (((m.run calls).store (tidOf t)).collected now).memoryOrNew.entries := by
    rw [← hmem.1]
    exact InMemoryMemory.mem_of_checkedRetrieve hes he
  unfold TenantStore.memoryOrNew at hstored
  cases hs : (((m.run calls).store (tidOf t)).collected now).memory with
  | none =>
    rw [hs] at hstored
    cases hstored
  | some mem =>
    rw [hs] at hstored
    rw [← hconfig]
    exact htimed.fresh (hconfig ▸ httl) hs hstored

omit [Hashlib] in
/-- Of two entries the older one has expired, and the other is returned. -/
theorem retrieve_fresh_two :
    let _ := Hashlib.checksum
    let m : MultiTenantMemory :=
      { embed := fun _ => [], maxEntriesPerTenant := 5, ttlSeconds := 10 }
    let calls := [TenantCall.write { text := "x" } (some "a") 0 0,
      .write { text := "y" } (some "a") 8 8]
    ((m.run calls).retrieve "x" 4 (some "a") none 0 15).1 =
        .ok [{ text := "y", embedding := some [] }] ∧
      ∀ es, ((m.run calls).retrieve "x" 4 (some "a") none 0 15).1 = .ok es →
        ∀ e ∈ es, ∃ w, lastWritten "a" (m.results calls) e.key = some w ∧ 15 - 10 ≤ w := by
  intro _ m calls
  refine ⟨by decide +kernel, ?_⟩
  refine retrieve_fresh (fun _ => []) 5 (by norm_num) calls "x" 4 (some "a") none 0 15 ?_
  have hfinds {s : TenantStore} {entry : MemoryEntry}
      (h : s.memoryOrNew.indexed entry.id = none) : s.memoryOrNew.FindsOwn entry := by
    intro old hold
    rw [h] at hold
    cases hold
  -- no call clears, and neither write finds an entry under its id
  rintro before entry t now written ⟨after, hcalls⟩ -
  have hclears : ¬ TenantCall.ClearedAfterUse "a" before := by
    rintro ⟨first, c, rest, rfl, hclears, -⟩
    have hc : c ∈ calls := by
      rw [← hcalls]
      simp
    simp only [calls, List.mem_cons, List.not_mem_nil, or_false] at hc
    rcases hc with rfl | rfl
    · cases hclears.1
    · cases hclears.1
  match before, hcalls with
  | [], hcalls =>
    obtain ⟨hwrite, -⟩ := List.cons.inj hcalls
    cases hwrite
    exact .inr ⟨hclears, hfinds rfl⟩
  | [c], hcalls =>
    obtain ⟨rfl, hrest⟩ := List.cons.inj hcalls
    obtain ⟨hwrite, -⟩ := List.cons.inj hrest
    cases hwrite
    exact .inr ⟨hclears, hfinds (by decide +kernel)⟩
  | c :: c' :: before, hcalls => simp [calls] at hcalls

omit [Hashlib] in
/-- The entry of a write after the tenant was cleared has no time, and never expires. -/
theorem expired_entry_is_retrieved :
    let _ := Hashlib.checksum
    let m : MultiTenantMemory := { embed := fun _ => [], ttlSeconds := 10 }
    let calls := [TenantCall.count (some "a"), .clear (some "a"),
      .write { text := "x" } (some "a") 0 0]
    ∃ es, ((m.run calls).retrieve "x" 4 (some "a") none 0 100).1 = .ok es ∧
      ∃ e ∈ es, lastWritten "a" (m.results calls) e.key = some 0 ∧ ¬100 - 10 ≤ (0 : ℚ) := by
  intro _ m calls
  have hretrieved : ((m.run calls).retrieve "x" 4 (some "a") none 0 100).1 =
      .ok [{ text := "x", embedding := some [] }] := by decide
  refine ⟨_, hretrieved, _, List.mem_singleton_self _, ?_, ?_⟩
  · decide
  · norm_num

end MultiTenantMemory

end Chen
