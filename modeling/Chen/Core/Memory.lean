import Chen.Python.Exception
import Chen.Python.Hashlib
import Mathlib.Data.Rat.Defs
import Mathlib.Data.List.Sort
import Mathlib.Algebra.Ring.Rat

/-!
# Shared external memory

`Memory` is the protocol the pipelines use; `InMemoryMemory` is the store they use by default.
Wall-clock timestamps of entries are left out: no operation reads them.
-/

namespace Chen

/-- One entry in the shared memory store. -/
structure MemoryEntry where
  text : String
  embedding : Option (List ℚ) := none
  role : String := ""
  expertName : String := ""
  confidence : ℚ := 1
  metadata : List (String × String) := []
deriving DecidableEq

/-- `id`: a digest of role, expert and text. -/
def MemoryEntry.id [Hashlib] (e : MemoryEntry) : String :=
  Str.hex (Hashlib.blake2b [] (Str.utf8 (e.role ++ "|" ++ e.expertName ++ "|" ++ e.text)) 8)

/-- The `Memory` protocol, as far as the pipelines use it. -/
class Memory (μ : Type) where
  /-- `write(entry)`: the entry's id and the memory afterwards. -/
  write (entry : MemoryEntry) (memory : μ) : String × μ
  /-- `retrieve(query, k)` with no role and no confidence filter. -/
  retrieve (query : String) (k : ℤ) (memory : μ) : List MemoryEntry

/-- A store that keeps nothing. -/
inductive NoMemory where
  | mk
deriving DecidableEq

instance : Memory NoMemory where
  write _ m := ("", m)
  retrieve _ _ _ := []

/-- The default store. `_index` sends an id to the position in `_entries` of the entry object it
refers to. -/
structure InMemoryMemory where
  embed : String → List ℚ
  entries : List MemoryEntry := []
  index : List (String × ℕ) := []

namespace InMemoryMemory

/-- `dict.update` on metadata. -/
def updateMetadata (old new : List (String × String)) : List (String × String) :=
  new.foldl (fun d kv =>
    if d.any (·.1 = kv.1) then d.map fun e => if e.1 = kv.1 then kv else e else d ++ [kv]) old

/-- Update of an existing entry: text, embedding, confidence and metadata. An entry has its own
metadata here; entries that share one dictionary are those of `SharedMemory`. -/
def updateEntry (old new : MemoryEntry) : MemoryEntry :=
  { old with
    text := new.text
    embedding := new.embedding
    confidence := new.confidence
    metadata := updateMetadata old.metadata new.metadata }

def write [Hashlib] (entry : MemoryEntry) (m : InMemoryMemory) : String × InMemoryMemory :=
  let entry := { entry with embedding := some (entry.embedding.getD (m.embed entry.text)) }
  match m.index.lookup entry.id with
  | none =>
    (entry.id,
      { m with
        entries := m.entries ++ [entry]
        index := m.index ++ [(entry.id, m.entries.length)] })
  | some i => (entry.id, { m with entries := m.entries.modify i (updateEntry · entry) })

/-- `np.dot` of two vectors of one length. -/
def dot (u v : List ℚ) : ℚ := (List.zipWith (· * ·) u v).sum

def retrieve (query : String) (k : ℤ) (role : Option String) (minConfidence : ℚ)
    (m : InMemoryMemory) : List MemoryEntry :=
  let q := m.embed query
  let scored := (m.entries.filter fun e =>
      role.all (· = e.role) && decide (minConfidence ≤ e.confidence)).map fun e =>
    (dot q (e.embedding.getD (m.embed e.text)), e)
  (sliceTo (scored.insertionSort fun a b => b.1 ≤ a.1) k).map (·.2)

instance [Hashlib] : Memory InMemoryMemory where
  write := write
  retrieve query k m := m.retrieve query k none 0

/-- `np.dot`, which raises on vectors of different lengths. -/
def checkedDot (u v : List ℚ) : Except Exn ℚ :=
  if u.length = v.length then .ok (dot u v)
  else
    .error (.value (s!"shapes ({u.length},) and ({v.length},) not aligned: " ++
      s!"{u.length} (dim 0) != {v.length} (dim 0)"))

/-- `retrieve` on entries whose embeddings may have any length. -/
def checkedRetrieve (query : String) (k : ℤ) (role : Option String) (minConfidence : ℚ)
    (m : InMemoryMemory) : Except Exn (List MemoryEntry) :=
  if m.entries = [] then .ok []
  else do
    let q := m.embed query
    let scored ← (m.entries.filter fun e =>
        role.all (· = e.role) && decide (minConfidence ≤ e.confidence)).mapM fun e => do
      let sim ← checkedDot q (e.embedding.getD (m.embed e.text))
      return (sim, e)
    return (sliceTo (scored.insertionSort fun a b => b.1 ≤ a.1) k).map (·.2)

def count (m : InMemoryMemory) : ℕ := m.entries.length

def clear (m : InMemoryMemory) : InMemoryMemory := { m with entries := [], index := [] }

/-- `_index.get(id)`. -/
def indexed (m : InMemoryMemory) (id : String) : Option MemoryEntry :=
  (m.index.lookup id).bind (m.entries[·]?)

end InMemoryMemory

end Chen
