import Chen.Core.Memory
import Chen.Library.Effect
import Chen.Python.Dict

/-!
# The index of a memory

`_index` sends an id to the stored entry it was given for. A write that finds its id replaces the
text of the entry, and nothing else of what the id is made from, so the entry keeps its id only if
it has the role and the expert of the write.
-/

namespace Chen

variable [Hashlib]

namespace MemoryEntry

/-- What identifies an entry. -/
def key (e : MemoryEntry) : String × String × String := (e.role, e.expertName, e.text)

/-- The string that the id is a digest of. -/
def joined (e : MemoryEntry) : String := e.role ++ "|" ++ e.expertName ++ "|" ++ e.text

/-- Equal joined strings have one id. -/
theorem id_of_joined_eq {e e' : MemoryEntry} (h : e.joined = e'.joined) : e.id = e'.id := by
  simp only [joined] at h
  rw [id, id, h]

omit [Hashlib] in
/-- Equal triples have one joined string. -/
theorem joined_of_key_eq {e e' : MemoryEntry} (h : e.key = e'.key) : e.joined = e'.joined := by
  simp only [key, Prod.mk.injEq] at h
  obtain ⟨hrole, hexpert, htext⟩ := h
  rw [joined, joined, hrole, hexpert, htext]

/-- Equal triples have one id. -/
theorem id_of_key_eq {e e' : MemoryEntry} (h : e.key = e'.key) : e.id = e'.id :=
  id_of_joined_eq (joined_of_key_eq h)

end MemoryEntry

namespace InMemoryMemory

variable {m : InMemoryMemory} {entry e : MemoryEntry}

/-- The entry with its embedding computed. -/
def embedded (m : InMemoryMemory) (entry : MemoryEntry) : MemoryEntry :=
  { entry with embedding := some (entry.embedding.getD (m.embed entry.text)) }

@[simp] theorem id_embedded (m : InMemoryMemory) (entry : MemoryEntry) :
    (m.embedded entry).id = entry.id := rfl

/-- `write` returns the entry's id. -/
@[simp] theorem write_fst (m : InMemoryMemory) (entry : MemoryEntry) :
    (m.write entry).1 = entry.id := by
  unfold write
  dsimp only
  split <;> rfl

/-- A new id goes to the end. -/
theorem write_of_lookup_none (h : m.index.lookup entry.id = none) :
    (m.write entry).2 =
      { m with
        entries := m.entries ++ [m.embedded entry]
        index := m.index ++ [(entry.id, m.entries.length)] } := by
  unfold write
  dsimp only
  split
  · rfl
  · next i hi => cases h.symm.trans hi

/-- An id that is there updates its entry. -/
theorem write_of_lookup_some {i : ℕ} (h : m.index.lookup entry.id = some i) :
    (m.write entry).2 =
      { m with entries := m.entries.modify i (updateEntry · (m.embedded entry)) } := by
  unfold write
  dsimp only
  split
  · next hnone => cases h.symm.trans hnone
  · next j hj =>
    cases h.symm.trans hj
    rfl

/-- A write adds at most one entry. -/
theorem count_write_le (m : InMemoryMemory) (entry : MemoryEntry) :
    (m.write entry).2.count ≤ m.count + 1 := by
  cases h : m.index.lookup entry.id with
  | none => simp [write_of_lookup_none h, count]
  | some i => simp [write_of_lookup_some h, count]

/-! ## Positions -/

/-- Every position in the index is that of an entry. -/
def InRange (m : InMemoryMemory) : Prop := ∀ id i, m.index.lookup id = some i → i < m.entries.length

omit [Hashlib] in
/-- A cleared memory has an empty index. -/
theorem InRange.clear (m : InMemoryMemory) : m.clear.InRange := by
  intro id i h
  simp [InMemoryMemory.clear] at h

/-- A write keeps the index within the entries. -/
theorem InRange.write (h : m.InRange) (entry : MemoryEntry) : (m.write entry).2.InRange := by
  intro id i hi
  cases hlookup : m.index.lookup entry.id with
  | none =>
    rw [write_of_lookup_none hlookup] at hi ⊢
    simp only [List.lookup_append, List.length_append, List.length_singleton] at hi ⊢
    cases hold : m.index.lookup id with
    | none =>
      rw [hold, Option.none_or, List.lookup_cons] at hi
      split at hi
      · cases hi
        omega
      · cases hi
    | some j =>
      rw [hold, Option.some_or, Option.some.injEq] at hi
      have hj := h id j hold
      omega
  | some j =>
    rw [write_of_lookup_some hlookup] at hi ⊢
    simpa using h id i hi

/-- What the id of a write refers to afterwards. -/
theorem indexed_write (h : m.InRange) (entry : MemoryEntry) :
    (m.write entry).2.indexed entry.id =
      some (match m.indexed entry.id with
        | none => m.embedded entry
        | some old => updateEntry old (m.embedded entry)) := by
  cases hlookup : m.index.lookup entry.id with
  | none =>
    rw [write_of_lookup_none hlookup]
    simp [indexed, hlookup, List.lookup_append]
  | some i =>
    have hlt : i < m.entries.length := h _ i hlookup
    have hi : m.entries[i]? = some m.entries[i] := List.getElem?_eq_getElem hlt
    rw [write_of_lookup_some hlookup]
    simp [indexed, hlookup, List.getElem?_modify, hi]

/-! ## Ids in place -/

/-- The index has the id of each stored entry at its position, and nothing else. -/
structure Indexed (m : InMemoryMemory) : Prop where
  index : m.index = (m.entries.map MemoryEntry.id).zipIdx
  nodup : (m.entries.map MemoryEntry.id).Nodup

/-- The index has a position exactly for the id that stands there. -/
theorem Indexed.lookup_iff (h : m.Indexed) {id : String} {i : ℕ} :
    m.index.lookup id = some i ↔ (m.entries.map MemoryEntry.id)[i]? = some id := by
  have hkeys : (m.index.map Prod.fst).Nodup := by
    rw [h.index, List.zipIdx_map_fst]
    exact h.nodup
  rw [Dict.lookup_eq_get?, ← List.mk_mem_zipIdx_iff_getElem?, ← h.index]
  exact ⟨Dict.mem_of_get?_eq_some, Dict.get?_eq_some_of_mem hkeys⟩

/-- The index leads to an entry exactly from the entry's own id. -/
theorem Indexed.indexed_iff (h : m.Indexed) {id : String} :
    m.indexed id = some e ↔ e ∈ m.entries ∧ e.id = id := by
  simp only [indexed, Option.bind_eq_some_iff, h.lookup_iff, List.getElem?_map,
    Option.map_eq_some_iff]
  constructor
  · rintro ⟨i, ⟨e', he', hid⟩, he⟩
    rw [he, Option.some.injEq] at he'
    exact ⟨List.mem_of_getElem? he, he' ▸ hid⟩
  · rintro ⟨he, hid⟩
    obtain ⟨i, hi⟩ := List.mem_iff_getElem?.mp he
    exact ⟨i, ⟨e, hi, hid⟩, hi⟩

/-- An id that is not indexed is that of no entry. -/
theorem Indexed.lookup_none_iff (h : m.Indexed) {id : String} :
    m.index.lookup id = none ↔ ∀ e ∈ m.entries, e.id ≠ id := by
  rw [Option.eq_none_iff_forall_ne_some]
  constructor
  · intro hnone e he hid
    obtain ⟨i, hi⟩ := List.mem_iff_getElem?.mp he
    exact hnone i (h.lookup_iff.mpr (by simp [hi, hid]))
  · intro hall i hi
    obtain ⟨e, he, hid⟩ := List.mem_map.mp (List.mem_of_getElem? (h.lookup_iff.mp hi))
    exact hall e he hid

/-- What a write finds under its id, if anything, is an entry of its role and its expert. -/
def FindsOwn (m : InMemoryMemory) (entry : MemoryEntry) : Prop :=
  ∀ old, m.indexed entry.id = some old →
    old.role = entry.role ∧ old.expertName = entry.expertName

omit [Hashlib] in
/-- An update by an entry of the same role and expert gives the entry the key of the update. -/
theorem key_updateEntry {old new : MemoryEntry}
    (h : old.role = new.role ∧ old.expertName = new.expertName) :
    (updateEntry old new).key = new.key := by
  rw [MemoryEntry.key, MemoryEntry.key, ← h.1, ← h.2]
  rfl

theorem Indexed.clear (m : InMemoryMemory) : m.clear.Indexed := ⟨rfl, List.nodup_nil⟩

/-- A write keeps the memory indexed, if the id it finds is its own entry's. -/
theorem Indexed.write (h : m.Indexed) (hown : m.FindsOwn entry) : (m.write entry).2.Indexed := by
  cases hlookup : m.index.lookup entry.id with
  | none =>
    rw [write_of_lookup_none hlookup]
    constructor
    · simp [h.index, List.zipIdx_append]
    · rw [List.map_append, List.map_singleton, id_embedded]
      refine List.Nodup.append h.nodup (List.nodup_singleton _) ?_
      rw [List.disjoint_singleton, List.mem_map]
      rintro ⟨e, he, hid⟩
      exact h.lookup_none_iff.mp hlookup e he hid
  | some i =>
    obtain ⟨old, hold, hid⟩ : ∃ e, m.entries[i]? = some e ∧ e.id = entry.id := by
      simpa using h.lookup_iff.mp hlookup
    have hsame := hown old (by simp [indexed, hlookup, hold])
    have hnew : (updateEntry old (m.embedded entry)).id = old.id := by
      rw [hid]
      exact MemoryEntry.id_of_key_eq (key_updateEntry hsame)
    have hids : (m.entries.modify i (updateEntry · (m.embedded entry))).map MemoryEntry.id =
        m.entries.map MemoryEntry.id := by
      apply List.ext_getElem?
      intro j
      rw [List.getElem?_map, List.getElem?_map, List.getElem?_modify]
      by_cases hij : i = j
      · subst hij
        simp [hold, hnew]
      · simp [hij]
    rw [write_of_lookup_some hlookup]
    exact ⟨by rw [hids]; exact h.index, by rw [hids]; exact h.nodup⟩

/-- Where every entry of a memory comes from after a write. -/
theorem Indexed.mem_write (h : m.Indexed) (hown : m.FindsOwn entry)
    (he : e ∈ (m.write entry).2.entries) :
    e.key = entry.key ∨ (e ∈ m.entries ∧ e.id ≠ entry.id) := by
  by_cases hid : e.id = entry.id
  · left
    have hfound := (h.write hown).indexed_iff.mpr ⟨he, hid⟩
    have hrange : m.InRange := by
      intro id i hi
      obtain ⟨hlt, -⟩ := List.getElem?_eq_some_iff.mp (h.lookup_iff.mp hi)
      simpa using hlt
    rw [indexed_write hrange, Option.some.injEq] at hfound
    cases hold : m.indexed entry.id with
    | none =>
      rw [hold] at hfound
      rw [← hfound]
      rfl
    | some old =>
      rw [hold] at hfound
      rw [← hfound]
      exact key_updateEntry (hown old hold)
  · refine .inr ⟨?_, hid⟩
    cases hlookup : m.index.lookup entry.id with
    | none =>
      rw [write_of_lookup_none hlookup] at he
      rcases List.mem_append.mp he with he | he
      · exact he
      · rw [List.mem_singleton.mp he] at hid
        exact absurd rfl hid
    | some i =>
      -- the entry at the position found has the id of the write
      have hat : ((m.write entry).2.entries.map MemoryEntry.id)[i]? = some entry.id := by
        apply (h.write hown).lookup_iff.mp
        rw [write_of_lookup_some hlookup]
        exact hlookup
      obtain ⟨j, hj⟩ := List.mem_iff_getElem?.mp he
      have hne : i ≠ j := by
        rintro rfl
        rw [List.getElem?_map, hj] at hat
        exact hid (Option.some.inj hat)
      rw [write_of_lookup_some hlookup, List.getElem?_modify_ne _ _ hne] at hj
      exact List.mem_of_getElem? hj

/-! ## Retrieval -/

omit [Hashlib] in
/-- On embeddings of one length, `retrieve` raises nothing. -/
theorem checkedRetrieve_eq_ok (m : InMemoryMemory) (query : String) (k : ℤ)
    (role : Option String) (minConfidence : ℚ)
    (h : ∀ e ∈ m.entries,
      (m.embed query).length = (e.embedding.getD (m.embed e.text)).length) :
    m.checkedRetrieve query k role minConfidence =
      .ok (m.retrieve query k role minConfidence) := by
  unfold checkedRetrieve
  split
  · next hempty =>
    rw [retrieve, hempty]
    simp [sliceTo]
  · apply Effect.except_bind_eq_ok.mpr
    refine ⟨_, Effect.except_mapM_eq_ok.mpr ?_, rfl⟩
    rw [List.forall₂_map_right_iff, List.forall₂_same]
    intro e he
    rw [checkedDot, if_pos (h e (List.mem_of_mem_filter he))]
    rfl

omit [Hashlib] in
/-- What is retrieved is stored. -/
theorem mem_of_checkedRetrieve {m : InMemoryMemory} {query : String} {k : ℤ}
    {role : Option String} {minConfidence : ℚ} {es : List MemoryEntry}
    (h : m.checkedRetrieve query k role minConfidence = .ok es) {e : MemoryEntry} (he : e ∈ es) :
    e ∈ m.entries := by
  unfold checkedRetrieve at h
  split at h
  · cases h
    cases he
  · obtain ⟨scored, hscored, hreturn⟩ := Effect.except_bind_eq_ok.mp h
    cases hreturn
    obtain ⟨p, hp, rfl⟩ := List.mem_map.mp he
    have hmem : p ∈ scored := (List.mem_insertionSort _).mp ((sliceTo_sublist _ _).mem hp)
    obtain ⟨e, hstored, hpair⟩ := (Effect.except_mem_mapM_iff hscored).mp hmem
    obtain ⟨sim, -, hsim⟩ := Effect.except_bind_eq_ok.mp hpair
    cases hsim
    exact List.mem_of_mem_filter hstored

end InMemoryMemory

end Chen
