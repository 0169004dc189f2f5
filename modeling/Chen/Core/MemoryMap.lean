import Chen.Core.MemoryIndex
import Chen.Library.Machine

/-!
# A memory as a map

A memory is a map from role, expert and text to the last confidence and the merged metadata, as
long as the ids tell the entries written apart.
-/

namespace Chen

variable [Hashlib]

/-- A call that changes a memory. -/
inductive MemoryCall where
  | write (entry : MemoryEntry)
  | clear

namespace MemoryCall

/-- The memory after a call. -/
def act (m : InMemoryMemory) : MemoryCall → InMemoryMemory
  | write entry => (m.write entry).2
  | clear => m.clear

/-- The entries written since the last `clear`. -/
def sinceClear (calls : List MemoryCall) : List MemoryEntry :=
  calls.foldl (fun written call => match call with
    | write entry => written ++ [entry]
    | clear => []) []

end MemoryCall

namespace InMemoryMemory

/-- Metadata merged from left to right. -/
def mergeMetadata : List (List (String × String)) → List (String × String)
  | [] => []
  | d :: ds => ds.foldl updateMetadata d

/-- The entries stored are those written: one for each key, in the order of the first writes, with
the confidence of the last write and the metadata of all. The index finds each of them. -/
structure IsMap (written : List MemoryEntry) (m : InMemoryMemory) : Prop where
  keys : m.entries.map MemoryEntry.key = (written.map MemoryEntry.key).eraseDups
  confidence : ∀ e ∈ m.entries,
    (written.filter (·.key = e.key)).getLast?.map MemoryEntry.confidence = some e.confidence
  metadata : ∀ e ∈ m.entries,
    e.metadata = mergeMetadata ((written.filter (·.key = e.key)).map MemoryEntry.metadata)
  index : ∀ i e, m.entries[i]? = some e → m.index.lookup e.id = some i

variable {m : InMemoryMemory} {entry e : MemoryEntry} {written : List MemoryEntry}

/-! ## One write -/

/-- What the map holds under a key. -/
def value (e : MemoryEntry) : ℚ × List (String × String) := (e.confidence, e.metadata)

/-- A value after a further write under its key. -/
def mergeValue : Option (ℚ × List (String × String)) → MemoryEntry → ℚ × List (String × String)
  | none, e => value e
  | some (_, old), e => (e.confidence, updateMetadata old e.metadata)

/-- The map that a memory is. -/
def asMap (m : InMemoryMemory) : Dict (String × String × String) (ℚ × List (String × String)) :=
  m.entries.map fun e => (e.key, value e)

omit [Hashlib] in
/-- The keys of the map are those of the entries. -/
theorem map_fst_asMap (m : InMemoryMemory) :
    m.asMap.map Prod.fst = m.entries.map MemoryEntry.key := by
  rw [asMap, List.map_map]
  rfl

/-- Entries with different ids have different keys. -/
theorem Indexed.nodup_keys (h : m.Indexed) : (m.asMap.map Prod.fst).Nodup := by
  rw [map_fst_asMap]
  apply List.Nodup.of_map fun k : String × String × String =>
    (MemoryEntry.mk k.2.2 none k.1 k.2.1 1 []).id
  rw [List.map_map]
  exact h.nodup

/-- The map has the value of every entry under its key. -/
theorem Indexed.get?_asMap (h : m.Indexed) (he : e ∈ m.entries) :
    m.asMap.get? e.key = some (value e) :=
  Dict.get?_eq_some_of_mem h.nodup_keys (List.mem_map_of_mem he)

/-- A write that finds nothing but its own key writes to the map. -/
theorem Indexed.asMap_write (h : m.Indexed)
    (hsame : ∀ old, m.indexed entry.id = some old → old.key = entry.key) :
    (m.write entry).2.asMap = m.asMap.upsert MemoryEntry.key mergeValue entry := by
  rw [Dict.upsert]
  cases hlookup : m.index.lookup entry.id with
  | none =>
    -- entries of the key have its id, so there are none
    have hnew : m.asMap.get? entry.key = none := by
      rw [Dict.get?_eq_none_iff]
      intro p hp
      obtain ⟨e, he, rfl⟩ := List.mem_map.mp hp
      intro hkey
      exact h.lookup_none_iff.mp hlookup e he (MemoryEntry.id_of_key_eq hkey)
    rw [hnew, Dict.set_of_get?_eq_none hnew, write_of_lookup_none hlookup, asMap, List.map_append]
    rfl
  | some i =>
    obtain ⟨old, hold, -⟩ : ∃ e, m.entries[i]? = some e ∧ e.id = entry.id := by
      simpa using h.lookup_iff.mp hlookup
    have hkey : old.key = entry.key := hsame old (by simp [indexed, hlookup, hold])
    -- the entry at the position of the id is the one of the key
    have hvalue : m.asMap.get? entry.key = some (value old) := by
      rw [← hkey]
      exact h.get?_asMap (List.mem_of_getElem? hold)
    have hat : m.asMap[i]? = some (entry.key, value old) := by
      simp [asMap, hold, hkey]
    have hown : old.role = entry.role ∧ old.expertName = entry.expertName := by
      simp only [MemoryEntry.key, Prod.mk.injEq] at hkey
      exact ⟨hkey.1, hkey.2.1⟩
    rw [hvalue, Dict.set_eq_listSet h.nodup_keys hat, write_of_lookup_some hlookup, asMap,
      List.modify_eq_set_getElem?, hold]
    have hnew : (updateEntry old (m.embedded entry)).key = entry.key := key_updateEntry hown
    show (m.entries.set i (updateEntry old (m.embedded entry))).map _ = _
    rw [List.map_set, hnew]
    rfl

/-! ## All writes -/

omit [Hashlib] in
/-- Merging leaves the last confidence and all of the metadata. -/
theorem foldl_mergeValue_some (ws : List MemoryEntry) (v : ℚ × List (String × String)) :
    ws.foldl (fun v e => some (mergeValue v e)) (some v) =
      some ((ws.getLast?.map MemoryEntry.confidence).getD v.1,
        (ws.map MemoryEntry.metadata).foldl updateMetadata v.2) := by
  induction ws generalizing v with
  | nil => rfl
  | cons w ws ih =>
    rw [List.foldl_cons, ih, List.getLast?_cons, List.map_cons, List.foldl_cons]
    cases ws.getLast? <;> rfl

omit [Hashlib] in
/-- The value under a key, from the writes under it. -/
theorem foldl_mergeValue {ws : List MemoryEntry} {v : ℚ × List (String × String)}
    (h : ws.foldl (fun v e => some (mergeValue v e)) none = some v) :
    ws.getLast?.map MemoryEntry.confidence = some v.1 ∧
      v.2 = mergeMetadata (ws.map MemoryEntry.metadata) := by
  cases ws with
  | nil => cases h
  | cons w ws =>
    rw [List.foldl_cons, mergeValue, foldl_mergeValue_some, Option.some.injEq] at h
    rw [List.getLast?_cons, ← h]
    constructor
    · cases ws.getLast? <;> rfl
    · rfl

/-- A memory that is the map of the writes has the entries that the writes ask for. -/
theorem Indexed.isMap (h : m.Indexed)
    (hmap : m.asMap = written.foldl (Dict.upsert MemoryEntry.key mergeValue) []) :
    m.IsMap written := by
  have hvalue : ∀ e ∈ m.entries,
      (written.filter (·.key = e.key)).getLast?.map MemoryEntry.confidence = some e.confidence ∧
        e.metadata = mergeMetadata
          ((written.filter (·.key = e.key)).map MemoryEntry.metadata) := by
    intro e he
    apply foldl_mergeValue (v := value e)
    rw [← h.get?_asMap he, hmap, Dict.get?_foldl_upsert]
    rfl
  constructor
  · rw [← map_fst_asMap, hmap, Dict.map_fst_foldl_upsert]
  · exact fun e he => (hvalue e he).1
  · exact fun e he => (hvalue e he).2
  · intro i e hi
    apply h.lookup_iff.mpr
    rw [List.getElem?_map, hi]
    rfl

/-- Ids tell the keys written apart. -/
def Distinguished (written : List MemoryEntry) : Prop :=
  ∀ e ∈ written, ∀ e' ∈ written, e.id = e'.id → e.key = e'.key

/-- What a map has under the id of a write was written under its key, if the id tells the keys
written apart. -/
theorem Indexed.key_eq_of_indexed (h : m.Indexed) (hmap : m.IsMap written)
    (hdist : ∀ w ∈ written, w.id = entry.id → w.key = entry.key) {old : MemoryEntry}
    (hold : m.indexed entry.id = some old) : old.key = entry.key := by
  obtain ⟨hmem, hid⟩ := h.indexed_iff.mp hold
  have hkey : old.key ∈ written.map MemoryEntry.key := by
    rw [← List.mem_eraseDups, ← hmap.keys]
    exact List.mem_map_of_mem hmem
  obtain ⟨w, hw, hwkey⟩ := List.mem_map.mp hkey
  rw [← hwkey]
  apply hdist w hw
  rw [MemoryEntry.id_of_key_eq hwkey, hid]

/-- A write whose id tells the keys written apart goes to the map. -/
theorem Indexed.write_map (h : m.Indexed)
    (hmap : m.asMap = written.foldl (Dict.upsert MemoryEntry.key mergeValue) [])
    (hdist : ∀ w ∈ written, w.id = entry.id → w.key = entry.key) :
    (m.write entry).2.Indexed ∧ (m.write entry).2.asMap =
      (written ++ [entry]).foldl (Dict.upsert MemoryEntry.key mergeValue) [] := by
  have hsame : ∀ old, m.indexed entry.id = some old → old.key = entry.key :=
    fun old hold => h.key_eq_of_indexed (h.isMap hmap) hdist hold
  rw [List.foldl_append, List.foldl_cons, List.foldl_nil, ← hmap]
  refine ⟨h.write fun old hold => ?_, h.asMap_write hsame⟩
  have hkey := hsame old hold
  simp only [MemoryEntry.key, Prod.mk.injEq] at hkey
  exact ⟨hkey.1, hkey.2.1⟩

/-- In a map, entries of one id have one key. -/
theorem IsMap.distinguished (h : m.IsMap written) : Distinguished written := by
  have hstored : ∀ e ∈ written, ∃ (i : ℕ) (e' : MemoryEntry), m.entries[i]? = some e' ∧
      e'.key = e.key := by
    intro e he
    have hkey : e.key ∈ m.entries.map MemoryEntry.key := by
      rw [h.keys, List.mem_eraseDups]
      exact List.mem_map_of_mem he
    obtain ⟨e', he', hkey⟩ := List.mem_map.mp hkey
    obtain ⟨i, hi⟩ := List.mem_iff_getElem?.mp he'
    exact ⟨i, e', hi, hkey⟩
  intro e he e' he' hid
  obtain ⟨i, x, hx, hxkey⟩ := hstored e he
  obtain ⟨j, y, hy, hykey⟩ := hstored e' he'
  -- both are the entry that the index has under their id
  have hi := h.index i x hx
  have hj := h.index j y hy
  rw [MemoryEntry.id_of_key_eq hxkey, hid, ← MemoryEntry.id_of_key_eq hykey, hj,
    Option.some.injEq] at hi
  rw [← hi, hy, Option.some.injEq] at hx
  rw [← hxkey, ← hykey, hx]

/-! ## Runs of calls -/

/-- The memory after a series of calls is that after the writes since the last `clear`. -/
theorem run_act (calls : List MemoryCall) {m : InMemoryMemory} (hentries : m.entries = [])
    (hindex : m.index = []) :
    ∃ m', m'.entries = [] ∧ m'.index = [] ∧
      Machine.run MemoryCall.act m calls =
        (MemoryCall.sinceClear calls).foldl (fun m e => (m.write e).2) m' := by
  induction calls using List.reverseRecOn with
  | nil => exact ⟨m, hentries, hindex, rfl⟩
  | append_singleton calls call ih =>
    obtain ⟨m', hentries', hindex', hrun⟩ := ih
    rw [Machine.run_append, MemoryCall.sinceClear, List.foldl_append]
    cases call with
    | write entry =>
      refine ⟨m', hentries', hindex', ?_⟩
      show ((Machine.run MemoryCall.act m calls).write entry).2 =
        (MemoryCall.sinceClear calls ++ [entry]).foldl _ m'
      rw [hrun, List.foldl_append]
      rfl
    | clear => exact ⟨_, rfl, rfl, rfl⟩

end InMemoryMemory

end Chen
