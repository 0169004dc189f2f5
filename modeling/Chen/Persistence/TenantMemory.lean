import Chen.Core.MemoryIndex
import Chen.Library.Machine
import Mathlib.Algebra.GroupWithZero.Nat

/-!
# Memories of several tenants

`MultiTenantMemory` gives each tenant an `InMemoryMemory` of its own, with a quota and a time to
live. The times of the writes are kept in a second dictionary, from tenants to the times of ids.
-/

namespace Chen

variable [Hashlib]

/-- A memory for each tenant, `tenants`, and the times of its writes, `tenantEntryTimes`. Memories
are created with the embedding `embed`. -/
structure MultiTenantMemory where
  embed : String → List ℚ
  maxEntriesPerTenant : ℤ := 10000
  ttlSeconds : ℚ := 0
  tenants : Dict String InMemoryMemory := []
  tenantEntryTimes : Dict String (Dict String ℚ) := []

/-- `QuotaExceededError`. -/
def quotaExceededError (tid : String) (maxEntries : ℤ) : Exn :=
  .other "QuotaExceededError"
    s!"Tenant '{tid}' has reached the maximum of {maxEntries} memory entries."

/-- `tenant_id or "__default__"`. -/
def tidOf (tenantId : Option String) : String :=
  match tenantId with
  | none => "__default__"
  | some t => if t = "" then "__default__" else t

/-- `mem._entries = kept` and `mem._index = {e.id: e for e in kept}`. -/
def InMemoryMemory.rebuilt (m : InMemoryMemory) (kept : List MemoryEntry) : InMemoryMemory :=
  { m with
    entries := kept
    index := (kept.map MemoryEntry.id).zipIdx.foldl (fun d p => Dict.set d p.1 p.2) [] }

/-- The ids whose times are more than `ttl` before `now`. -/
def expiredIds (ttl now : ℚ) (times : Dict String ℚ) : List String :=
  (times.filter fun p => ttl < now - p.2).map Prod.fst

namespace MultiTenantMemory

/-- `_get_tenant_memory`: a tenant without a memory gets one, and an empty table of times. -/
def getTenantMemory (tid : String) (m : MultiTenantMemory) : InMemoryMemory × MultiTenantMemory :=
  match m.tenants.get? tid with
  | some mem => (mem, m)
  | none =>
    let mem : InMemoryMemory := { embed := m.embed }
    (mem,
      { m with
        tenants := m.tenants.set tid mem
        tenantEntryTimes := m.tenantEntryTimes.set tid [] })

/-- `_gc_tenant`, where the clock shows `now`. -/
def gcTenant (tid : String) (now : ℚ) (m : MultiTenantMemory) : MultiTenantMemory :=
  if m.ttlSeconds ≤ 0 then m
  else
    let times := (m.tenantEntryTimes.get? tid).getD []
    let expired := expiredIds m.ttlSeconds now times
    match m.tenants.get? tid with
    | none => m
    | some mem =>
      if expired = [] then m
      else
        -- entries cannot be deleted by id, so the memory is rebuilt
        { m with
          tenants := m.tenants.set tid (mem.rebuilt (mem.entries.filter (·.id ∉ expired)))
          tenantEntryTimes := m.tenantEntryTimes.set tid (expired.foldl Dict.erase times) }

/-- `_check_quota`. -/
def checkQuota (tid : String) (m : MultiTenantMemory) : Except Exn Unit :=
  if m.maxEntriesPerTenant ≤ 0 then .ok ()
  else
    match m.tenants.get? tid with
    | none => .ok ()
    | some mem =>
      if m.maxEntriesPerTenant ≤ mem.count then
        .error (quotaExceededError tid m.maxEntriesPerTenant)
      else .ok ()

/-- `write` from the quota check on, where the clock shows `written` once the entry is stored. -/
def storeEntry (entry : MemoryEntry) (tid : String) (written : ℚ) (m : MultiTenantMemory) :
    Except Exn String × MultiTenantMemory :=
  let (mem, m) := m.getTenantMemory tid
  let (eid, mem) := mem.write entry
  let m := { m with tenants := m.tenants.set tid mem }
  match m.tenantEntryTimes.get? tid with
  -- the entry is stored by now
  | none => (.error (.other "KeyError" tid), m)
  | some times =>
    (.ok eid, { m with tenantEntryTimes := m.tenantEntryTimes.set tid (times.set eid written) })

/-- `write`, where the clock shows `now` when expired entries are collected. -/
def write (entry : MemoryEntry) (tenantId : Option String) (now written : ℚ)
    (m : MultiTenantMemory) : Except Exn String × MultiTenantMemory :=
  let tid := tidOf tenantId
  let m := m.gcTenant tid now
  match m.checkQuota tid with
  | .error x => (.error x, m)
  | .ok () => m.storeEntry entry tid written

def retrieve (query : String) (k : ℤ) (tenantId : Option String) (role : Option String)
    (minConfidence now : ℚ) (m : MultiTenantMemory) :
    Except Exn (List MemoryEntry) × MultiTenantMemory :=
  let tid := tidOf tenantId
  let (mem, m) := (m.gcTenant tid now).getTenantMemory tid
  (mem.checkedRetrieve query k role minConfidence, m)

def count (tenantId : Option String) (m : MultiTenantMemory) : ℕ × MultiTenantMemory :=
  let (mem, m) := m.getTenantMemory (tidOf tenantId)
  (mem.count, m)

def clear (tenantId : Option String) (m : MultiTenantMemory) : MultiTenantMemory :=
  match tenantId with
  | none =>
    -- the memories stay, emptied; the tables of times go
    { m with
      tenants := m.tenants.map fun p => (p.1, p.2.clear)
      tenantEntryTimes := [] }
  | some t =>
    let tid := tidOf (some t)
    { m with
      tenants := match m.tenants.get? tid with
        | none => m.tenants
        | some mem => m.tenants.set tid mem.clear
      tenantEntryTimes := m.tenantEntryTimes.erase tid }

/-- `total_entries`. -/
def totalEntries (m : MultiTenantMemory) : ℕ := (m.tenants.map fun p => p.2.count).sum

end MultiTenantMemory

/-- A call, with what the clock shows during it. -/
inductive TenantCall where
  | write (entry : MemoryEntry) (tenantId : Option String) (now written : ℚ)
  | retrieve (query : String) (k : ℤ) (tenantId : Option String) (role : Option String)
      (minConfidence now : ℚ)
  | count (tenantId : Option String)
  | clear (tenantId : Option String)

/-- What a call comes to: the value it returns, or the exception it raises. -/
inductive TenantResult where
  | id (eid : String)
  | entries (es : List MemoryEntry)
  | number (n : ℕ)
  | none
  | raised (x : Exn)
deriving DecidableEq

/-- A value or an exception. -/
def TenantResult.ofExcept {α : Type} (returned : α → TenantResult) : Except Exn α → TenantResult
  | .ok a => returned a
  | .error x => .raised x

namespace TenantCall

def tenantId : TenantCall → Option String
  | write _ t _ _ => t
  | retrieve _ _ t _ _ _ => t
  | count t => t
  | clear t => t

/-- A call and the memories after it. -/
def act (m : MultiTenantMemory) : TenantCall → TenantResult × MultiTenantMemory
  | write entry t now written =>
    let (r, m) := m.write entry t now written
    (.ofExcept .id r, m)
  | retrieve query k t role minConfidence now =>
    let (r, m) := m.retrieve query k t role minConfidence now
    (.ofExcept .entries r, m)
  | count t =>
    let (n, m) := m.count t
    (.number n, m)
  | clear t => (.none, m.clear t)

end TenantCall

end Chen
