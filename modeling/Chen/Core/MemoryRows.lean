import Chen.Core.MemoryMap
import Chen.Library.LastWrite

/-!
# What a memory holds under its ids

Entries of different keys may have one id. A memory then keeps one row for them: the role and the
expert of the first entry written under the id, and the text of the last.
-/

namespace Chen

variable [Hashlib]

namespace InMemoryMemory

/-- An id and the key of the entry it refers to. -/
abbrev Row := String × String × String × String

/-- The row of an entry that is written. -/
def rowOf (entry : MemoryEntry) : Row := (entry.id, entry.key)

/-- A write to a row that is there leaves its role and its expert. -/
def updateRow (old new : Row) : Row := (old.1, old.2.1, old.2.2.1, new.2.2.2)

omit [Hashlib] in
theorem updateRow_fst (old new : Row) : (updateRow old new).1 = old.1 := rfl

omit [Hashlib] in
theorem updateRow_self (row : Row) : updateRow row row = row := rfl

omit [Hashlib] in
theorem updateRow_updateRow (old new newer : Row) :
    updateRow (updateRow old new) newer = updateRow old newer := rfl

/-- The index has one id for each stored entry, in their order. The entries' own ids may differ. -/
structure Aligned (m : InMemoryMemory) : Prop where
  index : m.index = (m.index.map Prod.fst).zipIdx
  length : m.index.length = m.entries.length
  nodup : (m.index.map Prod.fst).Nodup

/-- The stored entries, each with the id that the index has for it. -/
def rows (m : InMemoryMemory) : List Row :=
  (m.index.map Prod.fst).zip (m.entries.map MemoryEntry.key)

variable {m : InMemoryMemory} {entry : MemoryEntry}

omit [Hashlib] in
/-- The ids of the rows are those of the index. -/
theorem Aligned.map_fst_rows (h : m.Aligned) : m.rows.map Prod.fst = m.index.map Prod.fst := by
  rw [rows, List.map_fst_zip]
  simp [h.length]

omit [Hashlib] in
/-- The keys of the rows are those of the entries. -/
theorem Aligned.map_snd_rows (h : m.Aligned) :
    m.rows.map Prod.snd = m.entries.map MemoryEntry.key := by
  rw [rows, List.map_snd_zip]
  simp [h.length]

omit [Hashlib] in
/-- The index has a position exactly for the id that stands there. -/
theorem Aligned.lookup_iff (h : m.Aligned) {id : String} {i : ℕ} :
    m.index.lookup id = some i ↔ (m.index.map Prod.fst)[i]? = some id := by
  rw [Dict.lookup_eq_get?, ← List.mk_mem_zipIdx_iff_getElem?, ← h.index]
  exact ⟨Dict.mem_of_get?_eq_some, Dict.get?_eq_some_of_mem h.nodup⟩

/-- A write keeps index and entries aligned. -/
theorem Aligned.write (h : m.Aligned) (entry : MemoryEntry) : (m.write entry).2.Aligned := by
  cases hlookup : m.index.lookup entry.id with
  | none =>
    rw [write_of_lookup_none hlookup]
    constructor
    · show m.index ++ [(entry.id, m.entries.length)] =
        ((m.index ++ [(entry.id, m.entries.length)]).map Prod.fst).zipIdx
      rw [List.map_append, List.zipIdx_append, ← h.index, List.length_map, h.length]
      simp
    · simp [h.length]
    · rw [List.map_append]
      refine List.Nodup.append h.nodup (List.nodup_singleton _) ?_
      intro id hid hnew
      rw [List.map_singleton, List.mem_singleton] at hnew
      obtain ⟨i, hi⟩ := List.mem_iff_getElem?.mp hid
      rw [hnew, ← h.lookup_iff, hlookup] at hi
      cases hi
  | some i =>
    rw [write_of_lookup_some hlookup]
    exact ⟨h.index, by simp [h.length], h.nodup⟩

/-- A write inserts its row, or updates the row of its id. -/
theorem Aligned.rows_write (h : m.Aligned) (entry : MemoryEntry) :
    (m.write entry).2.rows = LastWrite.upsert Prod.fst updateRow m.rows (rowOf entry) := by
  cases hlookup : m.index.lookup entry.id with
  | none =>
    -- the id is new, and the row goes to the end
    have hnone : LastWrite.select Prod.fst m.rows (rowOf entry).1 = none := by
      rw [LastWrite.select, List.find?_eq_none]
      intro row hrow hid
      have hmem : row.1 ∈ m.index.map Prod.fst := by
        rw [← h.map_fst_rows]
        exact List.mem_map_of_mem hrow
      obtain ⟨i, hi⟩ := List.mem_iff_getElem?.mp hmem
      have hrowid : row.1 = entry.id := of_decide_eq_true hid
      rw [hrowid, ← h.lookup_iff, hlookup] at hi
      cases hi
    rw [LastWrite.upsert_of_select_none hnone, write_of_lookup_none hlookup, rows, List.map_append,
      List.map_append, List.zip_append (by simp [h.length])]
    rfl
  | some i =>
    -- the id is known, and the row at its position is updated
    have hid := h.lookup_iff.mp hlookup
    have hlt : i < m.entries.length := by
      obtain ⟨hlt, -⟩ := List.getElem?_eq_some_iff.mp hid
      simpa [h.length] using hlt
    have hrow : m.rows[i]? = some (entry.id, m.entries[i].key) := by
      rw [rows, List.getElem?_zip_eq_some]
      exact ⟨hid, by simp [hlt]⟩
    have hnodup : (m.rows.map Prod.fst).Nodup := by
      rw [h.map_fst_rows]
      exact h.nodup
    rw [LastWrite.upsert_eq_modify (x := rowOf entry) hnodup hrow rfl,
      write_of_lookup_some hlookup]
    apply List.ext_getElem?
    intro j
    simp only [rows, List.zip, List.getElem?_modify, List.getElem?_zipWith, List.getElem?_map]
    cases m.index[j]? with
    | none => by_cases hij : i = j <;> simp [hij]
    | some pair => cases m.entries[j]? with
      | none => by_cases hij : i = j <;> simp [hij]
      | some old =>
        by_cases hij : i = j
        · simp only [hij, if_true, Option.map_some]
          rfl
        · simp [hij]

/-! ## All writes -/

variable {written : List MemoryEntry} {role expertName text : String}

/-- The rows after a series of writes are those of an upsert for each. -/
theorem foldl_rows (hentries : m.entries = []) (hindex : m.index = [])
    (written : List MemoryEntry) :
    (written.foldl (fun m e => (m.write e).2) m).Aligned ∧
      (written.foldl (fun m e => (m.write e).2) m).rows =
        (written.map rowOf).foldl (LastWrite.upsert Prod.fst updateRow) [] := by
  -- on the writes from the last one on, as each acts on the memory before it
  induction written using List.reverseRecOn with
  | nil =>
    rw [List.foldl_nil, List.map_nil, List.foldl_nil, rows, hindex, hentries]
    exact ⟨⟨by rw [hindex]; rfl, by rw [hindex, hentries]; rfl, by rw [hindex]; exact .nil⟩, rfl⟩
  | append_singleton written entry ih =>
    obtain ⟨haligned, hrows⟩ := ih
    rw [List.foldl_append, List.map_append, List.foldl_append, ← hrows]
    exact ⟨haligned.write entry, haligned.rows_write entry⟩

/-- There is an id under which the first entry written has the role and the expert, and the last has
the text. -/
def Kept (written : List MemoryEntry) (role expertName text : String) : Prop :=
  ∃ id first last, LastWrite.first MemoryEntry.id written id = some first ∧
    LastWrite.last MemoryEntry.id written id = some last ∧
    first.role = role ∧ first.expertName = expertName ∧ last.text = text

/-- The rows after a series of writes, by id. -/
theorem select_rows (hentries : m.entries = []) (hindex : m.index = [])
    (written : List MemoryEntry) (id : String) :
    LastWrite.select Prod.fst (written.foldl (fun m e => (m.write e).2) m).rows id =
      Option.map₂ (fun first last => (first.id, first.role, first.expertName, last.text))
        (LastWrite.first MemoryEntry.id written id) (LastWrite.last MemoryEntry.id written id) := by
  have hfind (ws : List MemoryEntry) :
      (ws.map rowOf).find? (Prod.fst · = id) = (ws.find? (MemoryEntry.id · = id)).map rowOf := by
    rw [List.find?_map]
    rfl
  have hselect : LastWrite.select Prod.fst
      ((written.map rowOf).foldl (LastWrite.upsert Prod.fst updateRow) []) id =
        Option.map₂ updateRow (LastWrite.first Prod.fst (written.map rowOf) id)
          (LastWrite.last Prod.fst (written.map rowOf) id) :=
    LastWrite.select_foldl_upsert updateRow_fst updateRow_self updateRow_updateRow _ _
  rw [(foldl_rows hentries hindex written).2, hselect, LastWrite.first, LastWrite.last,
    ← List.map_reverse, hfind, hfind, Option.map₂_map_left, Option.map₂_map_right]
  rfl

/-- What a memory that began empty stores, whatever ids its entries have. -/
theorem exists_stored_iff (hentries : m.entries = []) (hindex : m.index = [])
    (written : List MemoryEntry) :
    (∃ e ∈ (written.foldl (fun m e => (m.write e).2) m).entries,
        e.role = role ∧ e.expertName = expertName ∧ e.text = text) ↔
      Kept written role expertName text := by
  have haligned := (foldl_rows hentries hindex written).1
  have hselect := select_rows hentries hindex written
  generalize written.foldl (fun m e => (m.write e).2) m = m' at haligned hselect ⊢
  have hstored : (∃ e ∈ m'.entries, e.role = role ∧ e.expertName = expertName ∧ e.text = text) ↔
      (role, expertName, text) ∈ m'.rows.map Prod.snd := by
    rw [haligned.map_snd_rows]
    simp only [List.mem_map, MemoryEntry.key, Prod.mk.injEq]
  have hnodup : (m'.rows.map Prod.fst).Nodup := by
    rw [haligned.map_fst_rows]
    exact haligned.nodup
  rw [hstored, List.mem_map]
  constructor
  · rintro ⟨⟨id, key⟩, hrow, rfl⟩
    have hid := LastWrite.select_of_mem Prod.fst hnodup hrow
    rw [hselect, Option.map₂_eq_some_iff] at hid
    obtain ⟨first, last, hfirst, hlast, heq⟩ := hid
    simp only [Prod.mk.injEq] at heq
    exact ⟨id, first, last, hfirst, hlast, heq.2.1, heq.2.2.1, heq.2.2.2⟩
  · rintro ⟨id, first, last, hfirst, hlast, rfl, rfl, rfl⟩
    have hid := hselect id
    rw [hfirst, hlast] at hid
    exact ⟨_, List.mem_of_find?_eq_some hid, rfl⟩

/-- Where ids tell the keys apart, a memory keeps what was written. -/
theorem kept_iff_of_distinguished (h : Distinguished written) :
    Kept written role expertName text ↔ (role, expertName, text) ∈ written.map MemoryEntry.key := by
  constructor
  · rintro ⟨id, first, last, hfirst, hlast, rfl, rfl, rfl⟩
    obtain ⟨hmem, hid⟩ := LastWrite.mem_of_first _ hfirst
    obtain ⟨hmem', hid'⟩ := LastWrite.mem_of_last _ hlast
    have hkey := h first hmem last hmem' (hid.trans hid'.symm)
    simp only [MemoryEntry.key, Prod.mk.injEq] at hkey
    rw [List.mem_map]
    exact ⟨last, hmem', by rw [MemoryEntry.key, hkey.1, hkey.2.1]⟩
  · rw [List.mem_map]
    rintro ⟨e, he, hkey⟩
    simp only [MemoryEntry.key, Prod.mk.injEq] at hkey
    obtain ⟨rfl, rfl, rfl⟩ := hkey
    obtain ⟨last, hmem, hlast, hid⟩ := LastWrite.exists_last_of_mem MemoryEntry.id he
    obtain ⟨first, hfirst⟩ := LastWrite.exists_first_of_last _ hlast
    obtain ⟨hmem', hid'⟩ := LastWrite.mem_of_first _ hfirst
    have hkey := h first hmem' e he hid'
    have hkey' := h last hmem e he hid
    simp only [MemoryEntry.key, Prod.mk.injEq] at hkey hkey'
    exact ⟨e.id, first, last, hfirst, hlast, hkey.1, hkey.2.1, hkey'.2.2⟩

end InMemoryMemory

end Chen
