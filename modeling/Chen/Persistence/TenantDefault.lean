import Chen.Persistence.TenantUse
import Mathlib.Data.List.Induction

/-!
# Calls without a tenant

Calls without a tenant share the store that is called `__default__`. It is their own as long as no
client calls itself so.
-/

namespace Chen

variable [Hashlib]

namespace InMemoryMemory

variable {m : InMemoryMemory} {entry e : MemoryEntry}

/-- An entry of a memory was there before a write, or is what is written, or was updated by it. -/
theorem mem_write_cases (h : e ∈ (m.write entry).2.entries) :
    e ∈ m.entries ∨ e = m.embedded entry ∨
      ∃ old ∈ m.entries, e = updateEntry old (m.embedded entry) := by
  cases hlookup : m.index.lookup entry.id with
  | none =>
    rw [write_of_lookup_none hlookup] at h
    rcases List.mem_append.mp h with h | h
    · exact .inl h
    · exact .inr (.inl (List.mem_singleton.mp h))
  | some i =>
    rw [write_of_lookup_some hlookup] at h
    obtain ⟨j, hj⟩ := List.mem_iff_getElem?.mp h
    rw [List.getElem?_modify] at hj
    obtain ⟨old, hold, rfl⟩ := Option.map_eq_some_iff.mp hj
    split
    · exact .inr (.inr ⟨old, List.mem_of_getElem? hold, rfl⟩)
    · exact .inl (List.mem_of_getElem? hold)

omit [Hashlib] in
/-- What an updated dictionary holds was in it, or comes from the update. -/
theorem mem_updateMetadata {old new : List (String × String)} {item : String × String}
    (h : item ∈ updateMetadata old new) : item ∈ old ∨ item ∈ new := by
  induction new generalizing old with
  | nil => exact .inl h
  | cons kv new ih =>
    rw [updateMetadata, List.foldl_cons] at h
    rcases ih h with h | h
    · split at h
      · obtain ⟨item', hitem', rfl⟩ := List.mem_map.mp h
        split
        · exact .inr (List.mem_cons_self ..)
        · exact .inl hitem'
      · rcases List.mem_append.mp h with h | h
        · exact .inl h
        · exact .inr (List.mem_singleton.mp h ▸ List.mem_cons_self ..)
    · exact .inr (List.mem_cons_of_mem _ h)

end InMemoryMemory

omit [Hashlib] in
/-- Entries are the answer of a retrieval that returned them. -/
theorem TenantResult.ofExcept_eq_entries {r : Except Exn (List MemoryEntry)}
    {es : List MemoryEntry} (h : TenantResult.ofExcept .entries r = .entries es) : r = .ok es := by
  cases r with
  | ok es' => exact congrArg Except.ok (TenantResult.entries.inj h)
  | error x => cases h

namespace TenantCall

/-- A write for one of some tenants, of an entry with a property. -/
def Writes (tenants : Option String → Prop) (P : MemoryEntry → Prop) (c : TenantCall) : Prop :=
  ∃ entry t now written, c = .write entry t now written ∧ tenants t ∧ P entry

/-- All that an entry holds was written for some tenants: its text with confidence and embedding,
its author, and every item of its metadata. An embedding that no write brings is computed from the
text. -/
structure WrittenFor (tenants : Option String → Prop) (calls : List TenantCall) (e : MemoryEntry) :
    Prop where
  content : ∃ c ∈ calls, c.Writes tenants fun entry =>
    e.text = entry.text ∧ e.confidence = entry.confidence ∧
      (entry.embedding = none ∨ e.embedding = entry.embedding)
  author : ∃ c ∈ calls, c.Writes tenants fun entry =>
    e.role = entry.role ∧ e.expertName = entry.expertName
  metadata : ∀ item ∈ e.metadata, ∃ c ∈ calls, c.Writes tenants fun entry => item ∈ entry.metadata

variable {tenants tenants' : Option String → Prop} {calls calls' : List TenantCall}
  {e old entry : MemoryEntry}

omit [Hashlib] in
/-- More calls, for more tenants, wrote what some of them wrote. -/
theorem WrittenFor.mono (h : WrittenFor tenants calls e) (htenants : ∀ t, tenants t → tenants' t)
    (hcalls : calls ⊆ calls') : WrittenFor tenants' calls' e := by
  have hwrites {P : MemoryEntry → Prop} :
      (∃ c ∈ calls, Writes tenants P c) → ∃ c ∈ calls', Writes tenants' P c := by
    rintro ⟨c, hc, entry, t, now, written, rfl, ht, hP⟩
    exact ⟨_, hcalls hc, entry, t, now, written, rfl, htenants t ht, hP⟩
  exact ⟨hwrites h.content, hwrites h.author, fun item hitem => hwrites (h.metadata item hitem)⟩

omit [Hashlib] in
/-- A written entry is written by its write. -/
theorem WrittenFor.embedded (m : InMemoryMemory) {t : Option String} (now written : ℚ)
    (ht : tenants t) (hmem : .write entry t now written ∈ calls) :
    WrittenFor tenants calls (m.embedded entry) := by
  have hwrites {P : MemoryEntry → Prop} (h : P entry) : ∃ c ∈ calls, Writes tenants P c :=
    ⟨_, hmem, entry, t, now, written, rfl, ht, h⟩
  refine ⟨hwrites ⟨rfl, rfl, ?_⟩, hwrites ⟨rfl, rfl⟩, fun item hitem => hwrites hitem⟩
  cases h : entry.embedding with
  | none => exact .inl rfl
  | some v => exact .inr (by rw [InMemoryMemory.embedded, h, Option.getD_some])

omit [Hashlib] in
/-- An update keeps the author, and adds to the metadata. -/
theorem WrittenFor.updateEntry (hold : WrittenFor tenants calls old)
    (hnew : WrittenFor tenants calls entry) :
    WrittenFor tenants calls (InMemoryMemory.updateEntry old entry) where
  content := hnew.content
  author := hold.author
  metadata item hitem :=
    (InMemoryMemory.mem_updateMetadata hitem).elim (hold.metadata item) (hnew.metadata item)

end TenantCall

namespace TenantStore

/-- Collecting adds no entry. -/
theorem mem_memoryOrNew_collected {s : TenantStore} {now : ℚ} {e : MemoryEntry}
    (h : e ∈ (s.collected now).memoryOrNew.entries) : e ∈ s.memoryOrNew.entries := by
  unfold collected at h
  split at h
  · exact h
  · rename_i mem hmem
    split at h
    · exact h
    · rw [memoryOrNew, hmem]
      exact List.mem_of_mem_filter h

/-- If a store holds only what calls wrote for its tenant, it does so after one more call. -/
theorem writtenFor_act {s : TenantStore} {tenants : Option String → Prop} {calls : List TenantCall}
    (h : ∀ e ∈ s.memoryOrNew.entries, TenantCall.WrittenFor tenants calls e) {c : TenantCall}
    (hc : c ∈ calls) (htenant : ∀ entry t now written, c = .write entry t now written → tenants t) :
    ∀ e ∈ (s.act c).2.memoryOrNew.entries, TenantCall.WrittenFor tenants calls e := by
  intro e he
  have hopened {s : TenantStore} (h : e ∈ s.opened.memoryOrNew.entries) :
      e ∈ s.memoryOrNew.entries := by
    rwa [memoryOrNew, memory_opened, Option.getD_some] at h
  cases c with
  | write entry t now written =>
    rw [act, write] at he
    dsimp only at he
    split at he
    · exact h e (mem_memoryOrNew_collected he)
    · have hentry := TenantCall.WrittenFor.embedded (s.collected now).memoryOrNew now written
        (htenant entry t now written rfl) hc
      -- An entry of the memory is an old one, the new one, or an old one that is updated.
      rcases InMemoryMemory.mem_write_cases he with he | rfl | ⟨old, hold, rfl⟩
      · exact h e (mem_memoryOrNew_collected he)
      · exact hentry
      · exact (h old (mem_memoryOrNew_collected hold)).updateEntry hentry
  | retrieve query k t role minConfidence now => exact h e (mem_memoryOrNew_collected (hopened he))
  | count t => exact h e (hopened he)
  | clear t =>
    rw [act, cleared, memoryOrNew] at he
    cases hs : s.memory with
    | none =>
      rw [hs] at he
      cases he
    | some mem =>
      rw [hs] at he
      cases he

end TenantStore

namespace MultiTenantMemory

/-- All that an entry holds which a retrieve for `reader` returns was written before, for other
tenants than `writer`. -/
def Hidden (m : MultiTenantMemory) (writer reader : Option String) (calls : List TenantCall) :
    Prop :=
  ∀ before query k role minConfidence now after es,
    calls = before ++ .retrieve query k reader role minConfidence now :: after →
    (TenantCall.act (m.run before) (.retrieve query k reader role minConfidence now)).1 =
      .entries es →
    ∀ e ∈ es, TenantCall.WrittenFor (· ≠ writer) before e

variable {m : MultiTenantMemory}

/-- What the store of a tenant holds was written for that tenant. -/
theorem mem_store_run (hnew : m.tenants = []) {tid : String} {calls : List TenantCall}
    {e : MemoryEntry} (h : e ∈ ((m.run calls).store tid).memoryOrNew.entries) :
    TenantCall.WrittenFor (fun t => tidOf t = tid) calls e := by
  induction calls using List.reverseRecOn generalizing e with
  | nil =>
    simp [run, store, hnew, Dict.get?, TenantStore.memoryOrNew] at h
  | append_singleton calls c ih =>
    have hbefore : ∀ e ∈ ((m.run calls).store tid).memoryOrNew.entries,
        TenantCall.WrittenFor (fun t => tidOf t = tid) (calls ++ [c]) e := fun e he =>
      (ih he).mono (fun _ ht => ht) (List.subset_append_left calls [c])
    rw [run_append_singleton] at h
    -- only the calls of a tenant change its store
    by_cases hc : c.actsOn tid
    · rw [(TenantCall.act_own _ c hc).2] at h
      refine TenantStore.writtenFor_act hbefore
        (List.mem_append_right _ (List.mem_singleton.mpr rfl)) ?_ e h
      rintro entry t now written rfl
      exact of_decide_eq_true hc
    · rw [TenantCall.act_other _ c hc] at h
      exact hbefore e h

/-- Writers of another name than the reader are hidden from it. -/
theorem hidden_of_ne (hnew : m.tenants = []) {writer reader : Option String}
    (h : tidOf writer ≠ tidOf reader) (calls : List TenantCall) :
    m.Hidden writer reader calls := by
  intro before query k role minConfidence now after es hcalls hresult e he
  have hown : (TenantCall.retrieve query k reader role minConfidence now).actsOn (tidOf reader) :=
    decide_eq_true rfl
  rw [(TenantCall.act_own _ _ hown).1, TenantStore.act] at hresult
  have hretrieved := TenantResult.ofExcept_eq_entries hresult
  have hmem := TenantStore.mem_memoryOrNew_collected
    (InMemoryMemory.mem_of_checkedRetrieve hretrieved he)
  refine (mem_store_run hnew hmem).mono ?_ (List.Subset.refl before)
  rintro t ht rfl
  exact h ht

/-- An entry that a new store has stored is returned to the one who asks for its text at once. -/
theorem act_retrieve_stored {s : TenantStore} (hmemory : s.memory = none) (hfull : ¬ s.Full)
    (t : Option String) :
    (((s.act (.write { text := "" } t 0 0)).2).act (.retrieve "" 1 t none 0 0)).1 =
      .entries [{ text := "", embedding := some (s.embed "") }] := by
  have hcollected : s.collected 0 = s := by rw [TenantStore.collected, hmemory]
  have hstored : (s.act (.write { text := "" } t 0 0)).2 = s.stored { text := "" } 0 := by
    show (s.write _ 0 0).2 = _
    rw [TenantStore.write, hcollected, if_neg hfull]
  have hnew : s.memoryOrNew = { embed := s.embed } := by
    rw [TenantStore.memoryOrNew, hmemory]
    rfl
  have hopened : s.opened = { s with memory := some { embed := s.embed }, times := some [] } := by
    rw [TenantStore.opened, hmemory]
    exact congrArg (fun mem => { s with memory := some mem, times := some [] }) hnew
  have hmem : (s.stored { text := "" } 0).memoryOrNew =
      { embed := s.embed
        entries := [{ text := "", embedding := some (s.embed "") }]
        index := [(MemoryEntry.id { text := "" }, 0)] } := by
    show (s.memoryOrNew.write { text := "" }).2 = _
    rw [hnew]
    rfl
  -- the clock does not advance, so that nothing expires under any time to live
  have hkept : (s.stored { text := "" } 0).collected 0 = s.stored { text := "" } 0 := by
    have hexpired : (s.stored { text := "" } 0).expired 0 = [] := by
      rw [TenantStore.expired, TenantStore.stored, hopened]
      split
      · rfl
      · rename_i httl
        have hnow : ¬ s.ttlSeconds < 0 := Rat.not_lt.mpr (Rat.le_of_lt (Rat.not_le.mp httl))
        simpa [expiredIds, TenantStore.knownTimes, Dict.set] using hnow
    rw [TenantStore.collected]
    split
    · rfl
    · rw [if_pos hexpired]
  rw [hstored]
  show TenantResult.ofExcept .entries (InMemoryMemory.checkedRetrieve "" 1 none 0
    ((s.stored { text := "" } 0).collected 0).memoryOrNew) = _
  rw [hkept, hmem, InMemoryMemory.checkedRetrieve_eq_ok]
  · simp [TenantResult.ofExcept, InMemoryMemory.retrieve, sliceTo]
  · intro e he
    cases List.mem_singleton.mp he
    rfl

/-- A client that is called like the default store has its entry read without a tenant. -/
theorem not_hidden_default (embed : String → List ℚ) (maxEntries : ℤ) (ttl : ℚ) :
    ¬ Hidden { embed, maxEntriesPerTenant := maxEntries, ttlSeconds := ttl }
      (some "__default__") none
      [.write { text := "" } (some "__default__") 0 0, .retrieve "" 1 none none 0 0] := by
  intro hhidden
  let m : MultiTenantMemory := { embed, maxEntriesPerTenant := maxEntries, ttlSeconds := ttl }
  let c : TenantCall := .write { text := "" } (some "__default__") 0 0
  have hresult : (TenantCall.act (m.run [c]) (.retrieve "" 1 none none 0 0)).1 =
      .entries [{ text := "", embedding := some (embed "") }] := by
    have hwrite : TenantCall.actsOn "__default__" c = true := by decide
    have hretrieve : TenantCall.actsOn "__default__" (.retrieve "" 1 none none 0 0) = true := by
      decide
    have hstore : (m.run [c]).store "__default__" = ((m.store "__default__").act c).2 :=
      (TenantCall.act_own m c hwrite).2
    have hfull : ¬ (m.store "__default__").Full := by
      rintro ⟨-, mem, hmem, -⟩
      cases hmem
    rw [(TenantCall.act_own _ _ hretrieve).1, hstore]
    exact act_retrieve_stored rfl hfull none
  obtain ⟨c', hc', entry, t, now, written, rfl, ht, -⟩ :=
    (hhidden [c] "" 1 none 0 0 [] _ rfl hresult _ (List.mem_singleton.mpr rfl)).content
  have hc := List.mem_singleton.mp hc'
  rw [TenantCall.write.injEq] at hc
  exact ht hc.2.1

/-- Whatever the calls, neither what a tenant writes is returned without a tenant nor what is
written without one is returned to the tenant, if and only if the tenant is not called
`__default__`. -/
theorem default_private_iff (embed : String → List ℚ) (maxEntries : ℤ) (ttl : ℚ) {X : String}
    (hX : X ≠ "") :
    (∀ calls,
      let m : MultiTenantMemory := { embed, maxEntriesPerTenant := maxEntries, ttlSeconds := ttl }
      m.Hidden (some X) none calls ∧ m.Hidden none (some X) calls) ↔ X ≠ "__default__" := by
  constructor
  · rintro hall rfl
    exact not_hidden_default embed maxEntries ttl (hall _).1
  · intro hne calls
    have htid : tidOf (some X) ≠ tidOf none := by
      rw [TenantCall.tidOf_some hX]
      exact hne
    exact ⟨hidden_of_ne rfl htid calls, hidden_of_ne rfl htid.symm calls⟩

omit [Hashlib] in
/-- A tenant of another name. -/
theorem default_private_tenant :
    let _ := Hashlib.checksum
    (∀ calls,
      let m : MultiTenantMemory := { embed := fun _ => [] }
      m.Hidden (some "tenant-A") none calls ∧ m.Hidden none (some "tenant-A") calls) ↔
      "tenant-A" ≠ "__default__" := by
  intro _
  exact default_private_iff (fun _ => []) 10000 0 (by decide)

omit [Hashlib] in
/-- What the client `__default__` writes is returned without a tenant. -/
theorem default_tenant_leaks :
    let _ := Hashlib.checksum
    ¬ ∀ (X : String) (calls : List TenantCall), X ≠ "" →
      let m : MultiTenantMemory := { embed := fun _ => [] }
      m.Hidden (some X) none calls ∧ m.Hidden none (some X) calls := by
  intro _ hall
  exact not_hidden_default (fun _ => []) 10000 0 (hall "__default__" _ (by decide)).1

end MultiTenantMemory

end Chen
