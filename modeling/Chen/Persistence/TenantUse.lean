import Chen.Persistence.TenantStore

/-!
# Tenants in use

A tenant has a memory from its first call on that is not a `clear`. It has times too, until it is
cleared; after that it never has times again.
-/

namespace Chen

variable [Hashlib]

namespace TenantCall

/-- The tenant whose memory the call looks for. -/
def touches : TenantCall → Option String
  | clear _ => none
  | write _ t _ _ => some (tidOf t)
  | retrieve _ _ t _ _ _ => some (tidOf t)
  | count t => some (tidOf t)

/-- The call clears the tenant. -/
def Clears (tid : String) (c : TenantCall) : Prop := c.touches = none ∧ c.actsOn tid = true

/-- The tenant is cleared after a call that looked for its memory. -/
def ClearedAfterUse (tid : String) (calls : List TenantCall) : Prop :=
  ∃ before c after, calls = before ++ c :: after ∧ c.Clears tid ∧
    ∃ u ∈ before, u.touches = some tid

omit [Hashlib] in
/-- A call that touches a tenant acts on its store. -/
theorem actsOn_of_touches {tid : String} {c : TenantCall} (h : c.touches = some tid) :
    c.actsOn tid = true := by
  cases c with
  | clear t => cases h
  | write => exact decide_eq_true (Option.some.inj h)
  | retrieve => exact decide_eq_true (Option.some.inj h)
  | count => exact decide_eq_true (Option.some.inj h)

omit [Hashlib] in
/-- A call that acts on a tenant looks for its memory or clears it. -/
theorem touches_or_clears {tid : String} {c : TenantCall} (h : c.actsOn tid) :
    c.touches = some tid ∨ c.Clears tid := by
  cases c with
  | clear t => exact .inr ⟨rfl, h⟩
  | write => exact .inl (congrArg some (of_decide_eq_true h))
  | retrieve => exact .inl (congrArg some (of_decide_eq_true h))
  | count => exact .inl (congrArg some (of_decide_eq_true h))

omit [Hashlib] in
/-- One more call may be the one that clears after a use. -/
theorem clearedAfterUse_append_singleton (tid : String) (calls : List TenantCall)
    (c : TenantCall) :
    ClearedAfterUse tid (calls ++ [c]) ↔
      ClearedAfterUse tid calls ∨ (c.Clears tid ∧ ∃ u ∈ calls, u.touches = some tid) := by
  constructor
  · rintro ⟨before, c', after, heq, hclears, hused⟩
    -- the clear is the last call, or one before it
    rcases List.eq_nil_or_concat after with rfl | ⟨after, c'', rfl⟩
    · obtain ⟨rfl, hc⟩ := List.append_inj' heq rfl
      cases hc
      exact .inr ⟨hclears, hused⟩
    · left
      rw [List.concat_eq_append, ← List.cons_append, ← List.append_assoc] at heq
      exact ⟨before, c', after, (List.append_inj' heq rfl).1, hclears, hused⟩
  · rintro (⟨before, c', after, rfl, hclears, hused⟩ | ⟨hclears, hused⟩)
    · exact ⟨before, c', after ++ [c], by simp, hclears, hused⟩
    · exact ⟨calls, c, [], rfl, hclears, hused⟩

end TenantCall

namespace TenantStore

/-- The memory is there, but no table of times. -/
def Orphaned (s : TenantStore) : Prop := s.memory.isSome ∧ s.times = none

omit [Hashlib] in
/-- Nothing expires without times. -/
theorem expired_of_times_eq_none {s : TenantStore} (h : s.times = none) (now : ℚ) :
    s.expired now = [] := by
  rw [expired, knownTimes, h]
  split <;> rfl

/-- Expiry neither makes the times nor removes them. -/
theorem isSome_times_collected (now : ℚ) (s : TenantStore) :
    (s.collected now).times.isSome = s.times.isSome := by
  unfold collected
  split
  · rfl
  · split
    · rfl
    · -- where something expires there are times
      next hexp =>
      cases h : s.times with
      | none => exact absurd (expired_of_times_eq_none h now) hexp
      | some times => rfl

/-- After a write there is a memory. -/
theorem isSome_memory_write (entry : MemoryEntry) (now written : ℚ) (s : TenantStore) :
    (s.write entry now written).2.memory.isSome = true := by
  unfold write
  dsimp only
  split
  · next hfull =>
    obtain ⟨mem, hmem, -⟩ := hfull.2
    rw [Option.mem_def.mp hmem]
    rfl
  · rfl

omit [Hashlib] in
/-- Opening makes the times together with a new memory alone. -/
theorem isSome_times_opened (s : TenantStore) :
    s.opened.times.isSome = (s.memory.isNone || s.times.isSome) := by
  unfold opened
  cases h : s.memory <;> rfl

/-- So does a write. -/
theorem isSome_times_write (entry : MemoryEntry) (now written : ℚ) (s : TenantStore) :
    (s.write entry now written).2.times.isSome = (s.memory.isNone || s.times.isSome) := by
  have hmem := s.isSome_memory_collected now
  have htimes := s.isSome_times_collected now
  unfold write
  dsimp only
  split
  · next hfull =>
    obtain ⟨mem, hmem', -⟩ := hfull.2
    rw [Option.mem_def.mp hmem'] at hmem
    rw [htimes, ← Option.not_isSome, ← hmem]
    rfl
  · rw [stored, Option.isSome_map, isSome_times_opened, htimes, ← Option.not_isSome, hmem,
      Option.not_isSome]

/-- The memory is there after a call that looks for it; it is never taken away. -/
theorem isSome_memory_act (s : TenantStore) (c : TenantCall) :
    (s.act c).2.memory.isSome = (c.touches.isSome || s.memory.isSome) := by
  cases c with
  | write entry t now written => exact s.isSome_memory_write entry now written
  | retrieve query k t role minConfidence now =>
    rw [act, memory_opened]
    rfl
  | count t =>
    rw [act, memory_opened]
    rfl
  | clear t => exact Option.isSome_map

/-- The times are there after a call that finds them, or that creates the memory. -/
theorem isSome_times_act (s : TenantStore) (c : TenantCall) :
    (s.act c).2.times.isSome = (c.touches.isSome && (s.memory.isNone || s.times.isSome)) := by
  cases c with
  | write entry t now written => exact s.isSome_times_write entry now written
  | retrieve query k t role minConfidence now =>
    rw [act, isSome_times_opened, isSome_times_collected, ← Option.not_isSome,
      isSome_memory_collected, Option.not_isSome]
    rfl
  | count t => exact s.isSome_times_opened
  | clear t => rfl

/-- A store is orphaned by a clear that finds a memory, and remains so. -/
theorem orphaned_act_iff (s : TenantStore) (c : TenantCall) :
    (s.act c).2.Orphaned ↔ s.Orphaned ∨ (c.touches = none ∧ s.memory.isSome) := by
  have hmem := s.isSome_memory_act c
  have htimes := s.isSome_times_act c
  simp only [Orphaned, ← Option.isNone_iff_eq_none, ← Option.not_isSome, hmem, htimes]
  cases c.touches.isSome <;> cases s.memory.isSome <;> cases s.times.isSome <;> simp

end TenantStore

namespace MultiTenantMemory

variable (m : MultiTenantMemory) (tid : String)

/-- The memory after one more call. -/
theorem run_append_singleton (calls : List TenantCall) (c : TenantCall) :
    m.run (calls ++ [c]) = (c.act (m.run calls)).2 :=
  Machine.run_append m calls [c]

/-- A tenant has a memory if and only if a call looked for it. -/
theorem isSome_memory_run_iff (hnew : m.tenants = []) (calls : List TenantCall) :
    ((m.run calls).store tid).memory.isSome ↔ ∃ u ∈ calls, u.touches = some tid := by
  induction calls using List.reverseRecOn with
  | nil => simp [run, store, hnew, Dict.get?]
  | append_singleton calls c ih =>
    rw [run_append_singleton]
    by_cases hc : c.actsOn tid
    · rw [(TenantCall.act_own _ c hc).2, TenantStore.isSome_memory_act]
      rcases TenantCall.touches_or_clears hc with htouch | hclear
      · simp [htouch]
      · simp [hclear.1, ih]
    · rw [TenantCall.act_other _ c hc, ih]
      have hno : c.touches ≠ some tid := fun h => hc (TenantCall.actsOn_of_touches h)
      simp [hno]

/-- A tenant lacks its times if and only if it was cleared after use. -/
theorem orphaned_run_iff (hnew : m.tenants = []) (calls : List TenantCall) :
    ((m.run calls).store tid).Orphaned ↔ TenantCall.ClearedAfterUse tid calls := by
  induction calls using List.reverseRecOn with
  | nil =>
    simp [run, store, hnew, Dict.get?, TenantStore.Orphaned, TenantCall.ClearedAfterUse]
  | append_singleton calls c ih =>
    rw [run_append_singleton, TenantCall.clearedAfterUse_append_singleton, ← ih,
      ← m.isSome_memory_run_iff tid hnew]
    by_cases hc : c.actsOn tid
    · rw [(TenantCall.act_own _ c hc).2, TenantStore.orphaned_act_iff]
      simp [TenantCall.Clears, hc]
    · rw [TenantCall.act_other _ c hc]
      simp [TenantCall.Clears, hc]

end MultiTenantMemory

end Chen
