import Chen.Core.MemoryMap

/-!
# Metadata that entries share

A stored entry refers to the dictionary that it was made with, and a further write of its key updates
this dictionary in place. An entry that was made with the same dictionary shows the update as well.
Ids are digests of three fields joined by `|`, which may also stand in a field.
-/

namespace Chen

/-- An entry object. `metadata` is the dictionary that it refers to. -/
structure EntryObject where
  text : String
  embedding : Option (List ℚ) := none
  role : String := ""
  expertName : String := ""
  confidence : ℚ := 1
  metadata : ℕ
deriving DecidableEq

/-- What the dictionaries hold. -/
abbrev Dicts : Type := ℕ → List (String × String)

/-- The entry, with what its dictionary holds. -/
def EntryObject.read (dicts : Dicts) (e : EntryObject) : MemoryEntry where
  text := e.text
  embedding := e.embedding
  role := e.role
  expertName := e.expertName
  confidence := e.confidence
  metadata := dicts e.metadata

/-- `InMemoryMemory`, with the dictionaries of the program. -/
structure SharedMemory where
  embed : String → List ℚ
  entries : List EntryObject := []
  index : List (String × ℕ) := []
  dicts : Dicts

variable [Hashlib]

/-- `id`. -/
def EntryObject.id (e : EntryObject) : String :=
  Str.hex (Hashlib.blake2b [] (Str.utf8 (e.role ++ "|" ++ e.expertName ++ "|" ++ e.text)) 8)

@[simp] theorem EntryObject.id_read (dicts : Dicts) (e : EntryObject) :
    (e.read dicts).id = e.id := rfl

namespace SharedMemory

open InMemoryMemory (updateMetadata)

/-- `write`. -/
def write (entry : EntryObject) (m : SharedMemory) : String × SharedMemory :=
  let entry := { entry with embedding := some (entry.embedding.getD (m.embed entry.text)) }
  match m.index.lookup entry.id with
  | none =>
    (entry.id,
      { m with
        entries := m.entries ++ [entry]
        index := m.index ++ [(entry.id, m.entries.length)] })
  | some i =>
    match m.entries[i]? with
    -- positions in the index are those of entries
    | none => (entry.id, m)
    | some existing =>
      let updated := { existing with
        text := entry.text, embedding := entry.embedding, confidence := entry.confidence }
      -- `existing.metadata.update(entry.metadata)`
      let metadata := updateMetadata (m.dicts existing.metadata) (m.dicts entry.metadata)
      (entry.id,
        { m with
          entries := m.entries.set i updated
          dicts := Function.update m.dicts existing.metadata metadata })

omit [Hashlib] in
/-- `clear`. -/
def clear (m : SharedMemory) : SharedMemory := { m with entries := [], index := [] }

omit [Hashlib] in
/-- The memory, each entry with metadata of its own. -/
def byValue (m : SharedMemory) : InMemoryMemory where
  embed := m.embed
  entries := m.entries.map (EntryObject.read m.dicts)
  index := m.index

/-- The write changes nothing that another stored entry shows. -/
def Separate (m : SharedMemory) (entry : EntryObject) : Prop :=
  ∀ i ∈ m.index.lookup entry.id, ∀ existing ∈ m.entries[i]?, ∀ other ∈ m.entries.eraseIdx i,
    other.metadata = existing.metadata →
      updateMetadata (m.dicts existing.metadata) (m.dicts entry.metadata) =
        m.dicts existing.metadata

instance (m : SharedMemory) (entry : EntryObject) : Decidable (m.Separate entry) :=
  inferInstanceAs (Decidable (∀ i ∈ m.index.lookup entry.id, ∀ existing ∈ m.entries[i]?, _))

end SharedMemory

/-! ## Calls -/

/-- A call that changes a memory, on an entry object. -/
inductive ObjectCall where
  | write (entry : EntryObject)
  | clear
deriving DecidableEq

/-- The memory after some calls, and what was written since the last `clear`, as it was then. -/
structure SharedRun where
  memory : SharedMemory
  written : List MemoryEntry := []

namespace SharedRun

/-- One call more. -/
def step (s : SharedRun) : ObjectCall → SharedRun
  | .write entry =>
    ⟨(s.memory.write entry).2, s.written ++ [entry.read s.memory.dicts]⟩
  | .clear => ⟨s.memory.clear, []⟩

/-- After a series of calls on a new memory. -/
def after (embed : String → List ℚ) (dicts : Dicts) (calls : List ObjectCall) : SharedRun :=
  Machine.run step ⟨{ embed, dicts }, []⟩ calls

/-- The memory has what was written, one entry for each key. -/
def IsMap (s : SharedRun) : Prop := s.memory.byValue.IsMap s.written

/-- The entry has no string in common with another key written, and the write changes nothing that
another stored entry shows. -/
structure Harmless (s : SharedRun) (entry : EntryObject) : Prop where
  joined : ∀ w ∈ s.written, w.joined = (entry.read s.memory.dicts).joined →
    w.key = (entry.read s.memory.dicts).key
  separate : s.memory.Separate entry

instance (s : SharedRun) (entry : EntryObject) : Decidable (s.Harmless entry) :=
  decidable_of_iff (_ ∧ _) ⟨fun h => ⟨h.1, h.2⟩, fun h => ⟨h.joined, h.separate⟩⟩

end SharedRun

/-! ## One write -/

namespace SharedMemory

open InMemoryMemory

variable {m : SharedMemory} {entry : EntryObject}

/-- The entry with its embedding computed. -/
def embedded (m : SharedMemory) (entry : EntryObject) : EntryObject :=
  { entry with embedding := some (entry.embedding.getD (m.embed entry.text)) }

/-- A new id goes to the end. -/
theorem write_of_new (hlookup : m.index.lookup entry.id = none) :
    (m.write entry).2 =
      { m with
        entries := m.entries ++ [m.embedded entry]
        index := m.index ++ [(entry.id, m.entries.length)] } := by
  have hlookup' : m.index.lookup (m.embedded entry).id = none := hlookup
  unfold write
  simp only [embedded] at hlookup' ⊢
  simp only [hlookup']
  rfl

/-- An index that leads nowhere stops the write. -/
theorem write_of_dangling {i : ℕ} (hlookup : m.index.lookup entry.id = some i)
    (hentry : m.entries[i]? = none) : (m.write entry).2 = m := by
  have hlookup' : m.index.lookup (m.embedded entry).id = some i := hlookup
  unfold write
  simp only [embedded] at hlookup'
  simp only [hlookup', hentry]

/-- A write that finds an entry sets it, and updates its dictionary. -/
theorem write_of_found {i : ℕ} {existing : EntryObject}
    (hlookup : m.index.lookup entry.id = some i) (hentry : m.entries[i]? = some existing) :
    (m.write entry).2 =
      { m with
        entries := m.entries.set i { existing with
          text := entry.text
          embedding := some (entry.embedding.getD (m.embed entry.text))
          confidence := entry.confidence }
        dicts := Function.update m.dicts existing.metadata
          (updateMetadata (m.dicts existing.metadata) (m.dicts entry.metadata)) } := by
  have hlookup' : m.index.lookup (m.embedded entry).id = some i := hlookup
  unfold write
  simp only [embedded] at hlookup'
  simp only [hlookup', hentry]

/-- A write that is separate is one by value. -/
theorem byValue_write (hsep : m.Separate entry) :
    (m.write entry).2.byValue = (m.byValue.write (entry.read m.dicts)).2 := by
  cases hlookup : m.index.lookup entry.id with
  | none =>
    have hlookup' : m.byValue.index.lookup (entry.read m.dicts).id = none := hlookup
    rw [write_of_lookup_none hlookup', write_of_new hlookup]
    unfold byValue
    simp only [List.map_append, List.length_map]
    rfl
  | some i =>
    have hlookup' : m.byValue.index.lookup (entry.read m.dicts).id = some i := hlookup
    rw [write_of_lookup_some hlookup']
    cases hentry : m.entries[i]? with
    | none =>
      have hout : m.entries.length ≤ i := List.getElem?_eq_none_iff.mp hentry
      rw [write_of_dangling hlookup hentry]
      unfold byValue
      rw [List.modify_eq_self (by simpa using hout)]
    | some existing =>
      rw [write_of_found hlookup hentry]
      unfold byValue
      congr 1
      apply List.ext_getElem?
      intro j
      rw [List.getElem?_map, List.getElem?_set, List.getElem?_modify, List.getElem?_map]
      by_cases hij : i = j
      · subst hij
        obtain ⟨hlt, rfl⟩ := List.getElem?_eq_some_iff.mp hentry
        simp [hlt, EntryObject.read, updateEntry, InMemoryMemory.embedded]
      · rw [if_neg hij]
        cases hother : m.entries[j]? with
        | none => rfl
        | some other =>
          simp only [hij, if_false, Option.map_some]
          -- the dictionary of another entry holds what it held
          have hdict : Function.update m.dicts existing.metadata
              (updateMetadata (m.dicts existing.metadata) (m.dicts entry.metadata))
                other.metadata = m.dicts other.metadata := by
            by_cases hshared : other.metadata = existing.metadata
            · rw [hshared, Function.update_self]
              exact hsep i hlookup existing hentry other
                (List.mem_eraseIdx_iff_getElem?.mpr ⟨j, Ne.symm hij, hother⟩) hshared
            · rw [Function.update_of_ne hshared]
          rw [EntryObject.read, hdict]
          rfl

/-- In a map that a write has kept, the write was separate. -/
theorem separate_of_isMap {written : List MemoryEntry} (hindexed : m.byValue.Indexed)
    (hmap : m.byValue.IsMap written)
    (hnext : (m.write entry).2.byValue.IsMap (written ++ [entry.read m.dicts])) :
    m.Separate entry := by
  intro i hlookup existing hentry other hother hshared
  obtain ⟨j, hij, hother⟩ := List.mem_eraseIdx_iff_getElem?.mp hother
  have hat : ∀ {k : ℕ} {e : EntryObject}, m.entries[k]? = some e →
      m.byValue.entries[k]? = some (e.read m.dicts) := by
    intro k e he
    show (m.entries.map _)[k]? = _
    rw [List.getElem?_map, he, Option.map_some]
  -- the entry found has the key of the write, and the other one has another
  have hid : existing.id = entry.id := by
    have hids := hindexed.lookup_iff.mp hlookup
    rw [List.getElem?_map, hat hentry] at hids
    exact Option.some.inj hids
  have hkey : (existing.read m.dicts).key = (entry.read m.dicts).key := by
    have hmem : (existing.read m.dicts).key ∈ written.map MemoryEntry.key := by
      rw [← List.mem_eraseDups, ← hmap.keys]
      exact List.mem_map_of_mem (List.mem_of_getElem? (hat hentry))
    obtain ⟨w, hw, hwkey⟩ := List.mem_map.mp hmem
    rw [← hwkey]
    apply hnext.distinguished w (List.mem_append_left _ hw) _ (List.mem_append_right _ (by simp))
    rw [MemoryEntry.id_of_key_eq hwkey, EntryObject.id_read, EntryObject.id_read, hid]
  have hne : (entry.read m.dicts).key ≠ (other.read m.dicts).key := by
    rw [← hkey]
    intro heq
    have hi := hmap.index i _ (hat hentry)
    rw [MemoryEntry.id_of_key_eq heq, hmap.index j _ (hat hother)] at hi
    exact hij (Option.some.inj hi)
  -- so nothing was written to the other, and it shows what it showed
  have hafter : (m.write entry).2.byValue.entries[j]? =
      some (other.read (m.write entry).2.dicts) := by
    rw [write_of_found hlookup hentry]
    show ((m.entries.set i _).map _)[j]? = _
    rw [List.getElem?_map, List.getElem?_set_ne (Ne.symm hij), hother, Option.map_some]
  have hbefore := hmap.metadata _ (List.mem_of_getElem? (hat hother))
  have hmetadata := hnext.metadata _ (List.mem_of_getElem? hafter)
  have hother_key : (other.read (m.write entry).2.dicts).key = (other.read m.dicts).key := rfl
  have hskip : (written ++ [entry.read m.dicts]).filter (·.key = (other.read m.dicts).key) =
      written.filter (·.key = (other.read m.dicts).key) := by
    simp [List.filter_append, hne]
  rw [hother_key, hskip] at hmetadata
  rw [← hbefore, write_of_found hlookup hentry] at hmetadata
  simpa [EntryObject.read, hshared] using hmetadata

end SharedMemory

/-! ## Runs -/

namespace SharedRun

open InMemoryMemory

/-- The memory is the map of what was written, and its index is in order. -/
structure Sound (s : SharedRun) : Prop where
  indexed : s.memory.byValue.Indexed
  map : s.memory.byValue.asMap = s.written.foldl (Dict.upsert MemoryEntry.key mergeValue) []

variable {s : SharedRun} {entry : EntryObject}

/-- A sound memory is the map of what was written. -/
theorem Sound.isMap (h : s.Sound) : s.IsMap := h.indexed.isMap h.map

omit [Hashlib] in
/-- A memory without entries is sound. -/
theorem sound_empty [Hashlib] (embed : String → List ℚ) (dicts : Dicts) :
    Sound ⟨{ embed, dicts }, []⟩ :=
  ⟨⟨rfl, List.nodup_nil⟩, rfl⟩

/-- A write keeps the memory sound if its id tells the keys apart and it is separate. -/
theorem Sound.write (h : s.Sound)
    (hdist : ∀ w ∈ s.written, w.id = (entry.read s.memory.dicts).id →
      w.key = (entry.read s.memory.dicts).key)
    (hsep : s.memory.Separate entry) : (s.step (.write entry)).Sound := by
  have hwrite : (s.step (.write entry)).memory.byValue =
      (s.memory.byValue.write (entry.read s.memory.dicts)).2 := SharedMemory.byValue_write hsep
  obtain ⟨hindexed, hmap⟩ := h.indexed.write_map h.map hdist
  rw [← hwrite] at hindexed hmap
  exact ⟨hindexed, hmap⟩

/-- The call is a `clear`, or a write that keeps the memory sound. -/
def KeepsMap (s : SharedRun) : ObjectCall → Prop
  | .clear => True
  | .write entry =>
    (∀ w ∈ s.written, w.id = (entry.read s.memory.dicts).id →
      w.key = (entry.read s.memory.dicts).key) ∧ s.memory.Separate entry

/-- A call that keeps the map keeps a sound memory sound. -/
theorem Sound.step {call : ObjectCall} (h : s.Sound) (hcall : s.KeepsMap call) :
    (s.step call).Sound := by
  cases call with
  | clear => exact sound_empty _ _
  | write entry => exact h.write hcall.1 hcall.2

/-- A call after which the memory is a map has kept it. -/
theorem Sound.keepsMap {call : ObjectCall} (h : s.Sound) (hnext : (s.step call).IsMap) :
    s.KeepsMap call := by
  cases call with
  | clear => trivial
  | write entry =>
    refine ⟨fun w hw => ?_, SharedMemory.separate_of_isMap h.indexed h.isMap hnext⟩
    exact hnext.distinguished w (List.mem_append_left _ hw) _ (List.mem_append_right _ (by simp))

/-- Without a `clear`, what was written stays on record. -/
theorem written_subset {s : SharedRun} {calls : List ObjectCall} (h : ObjectCall.clear ∉ calls) :
    s.written ⊆ (Machine.run step s calls).written := by
  induction calls generalizing s with
  | nil => exact fun _ hw => hw
  | cons call calls ih =>
    rw [List.mem_cons, not_or] at h
    obtain ⟨hcall, hcalls⟩ := h
    rw [Machine.run_cons]
    cases call with
    | clear => exact absurd rfl hcall
    | write entry => exact fun w hw => ih hcalls (List.mem_append_left _ hw)

/-- Where the digest tells the strings written apart, ids are equal exactly if the strings are. -/
theorem id_eq_iff {embed : String → List ℚ} {dicts : Dicts} {calls pre : List ObjectCall}
    (hinj : Set.InjOn (fun s => Hashlib.blake2b [] (Str.utf8 s) 8)
      {s | ∃ w ∈ (after embed dicts calls).written, w.joined = s})
    (hpre : pre ++ [.write entry] <+: calls) (hlast : ObjectCall.clear ∉ calls.drop pre.length)
    {w : MemoryEntry} (hw : w ∈ (after embed dicts pre).written) :
    w.id = (entry.read (after embed dicts pre).memory.dicts).id ↔
      w.joined = (entry.read (after embed dicts pre).memory.dicts).joined := by
  obtain ⟨rest, rfl⟩ := hpre
  have hrest : ObjectCall.clear ∉ rest := fun hmem => hlast (by simp [hmem])
  -- both stay on record
  have hwritten : ((after embed dicts pre).step (.write entry)).written ⊆
      (after embed dicts (pre ++ [.write entry] ++ rest)).written := by
    simp only [after, Machine.run_append]
    exact written_subset hrest
  refine ⟨fun hid => ?_, MemoryEntry.id_of_joined_eq⟩
  refine hinj ⟨w, hwritten (List.mem_append_left _ hw), rfl⟩ ⟨_, hwritten ?_, rfl⟩
    (Str.hex_injective hid)
  exact List.mem_append_right _ (by simp)

/-- From the last `clear` on, a memory is the map of what was written after every call if and only
if every write was harmless. -/
theorem isMap_iff_harmless (embed : String → List ℚ) (dicts : Dicts) (calls : List ObjectCall)
    (hinj : Set.InjOn (fun s => Hashlib.blake2b [] (Str.utf8 s) 8)
      {s | ∃ w ∈ (after embed dicts calls).written, w.joined = s}) :
    (∀ pre, pre <+: calls → ObjectCall.clear ∉ calls.drop pre.length →
        (after embed dicts pre).IsMap) ↔
      ∀ pre entry, pre ++ [.write entry] <+: calls → ObjectCall.clear ∉ calls.drop pre.length →
        (after embed dicts pre).Harmless entry := by
  have hsince : ∀ n, (∀ b ∈ calls.drop n, ¬b = ObjectCall.clear) ↔
      ObjectCall.clear ∉ calls.drop n :=
    fun n => ⟨fun h hmem => h _ hmem rfl, fun h b hb heq => h (heq ▸ hb)⟩
  have halways := Machine.always_since_iff Sound IsMap KeepsMap (· = ObjectCall.clear)
    (fun s => Sound.isMap) (fun s a ha => by rw [ha]; exact sound_empty _ _) (fun s a => Sound.step)
    (fun s a => Sound.keepsMap) (sound_empty embed dicts) calls
  simp only [hsince] at halways
  refine halways.trans ⟨fun h pre entry hpre hlast => ?_, fun h pre call hpre hlast => ?_⟩
  · obtain ⟨hids, hsep⟩ := h pre (.write entry) hpre hlast
    exact ⟨fun w hw hjoined => hids w hw ((id_eq_iff hinj hpre hlast hw).mpr hjoined), hsep⟩
  · cases call with
    | clear => trivial
    | write entry =>
      obtain ⟨hjoined, hsep⟩ := h pre entry hpre hlast
      exact ⟨fun w hw hid => hjoined w hw ((id_eq_iff hinj hpre hlast hw).mp hid), hsep⟩

omit [Hashlib] in
/-- An entry is written, forgotten and written again, then another one, and the first is updated. -/
theorem isMap_iff_harmless_update :
    let _ := Hashlib.checksum
    let dicts : Dicts := fun i => if i = 2 then [("k", "v")] else []
    let first : EntryObject := { text := "t", role := "r", expertName := "e", metadata := 0 }
    let calls := [ObjectCall.write first, .clear, .write first,
      .write { first with text := "u", metadata := 1 },
      .write { first with confidence := 1 / 2, metadata := 2 }]
    (after (fun _ => []) dicts calls).IsMap := by
  intro _ dicts first calls
  have hjoined : ∀ w ∈ (after (fun _ => []) dicts calls).written,
      w.joined = "r|e|t" ∨ w.joined = "r|e|u" := by decide +kernel
  have hdigest : Hashlib.blake2b [] (Str.utf8 "r|e|t") 8 ≠
      Hashlib.blake2b [] (Str.utf8 "r|e|u") 8 := by decide
  refine (isMap_iff_harmless (fun _ => []) dicts calls ?_).mpr ?_ calls (List.prefix_refl _)
    (by simp)
  · apply (Set.injOn_pair.mpr fun heq => absurd heq hdigest).mono
    rintro _ ⟨w, hw, rfl⟩
    exact hjoined w hw
  · intro pre entry hpre hlast
    have hat : calls[pre.length]? = some (.write entry) := by
      obtain ⟨rest, hcalls⟩ := hpre
      rw [← hcalls]
      simp
    rw [List.prefix_iff_eq_take.mp ((List.prefix_append pre _).trans hpre)]
    revert hat
    generalize pre.length = n
    intro hat
    match n, hat with
    | 0, hat | 2, hat | 3, hat | 4, hat => cases hat; decide

omit [Hashlib] in
/-- Two keys of one string: the second write is lost in the entry of the first. Two keys with one
dictionary: an update of the first entry shows in the second. -/
theorem not_isMap_of_harm :
    let _ := Hashlib.checksum
    let dicts : Dicts := fun i => if i = 1 then [("k", "v")] else []
    let colliding :=
      [ObjectCall.write { text := "d", role := "a", expertName := "b|c", metadata := 0 },
        .write { text := "d", role := "a|b", expertName := "c", metadata := 1 }]
    let sharing := [ObjectCall.write { text := "t", metadata := 0 },
      .write { text := "u", metadata := 0 }, .write { text := "t", metadata := 1 }]
    (Set.InjOn (fun s => Hashlib.blake2b [] (Str.utf8 s) 8)
        {s | ∃ w ∈ (after (fun _ => []) dicts colliding).written, w.joined = s} ∧
      ¬(after (fun _ => []) dicts colliding).IsMap) ∧
    (Set.InjOn (fun s => Hashlib.blake2b [] (Str.utf8 s) 8)
        {s | ∃ w ∈ (after (fun _ => []) dicts sharing).written, w.joined = s} ∧
      ¬(after (fun _ => []) dicts sharing).IsMap) := by
  intro _ dicts colliding sharing
  constructor
  · have hjoined : ∀ w ∈ (after (fun _ => []) dicts colliding).written, w.joined = "a|b|c|d" := by
      decide
    refine ⟨Set.Subsingleton.injOn ?_ _, fun h => ?_⟩
    · rintro _ ⟨w, hw, rfl⟩ _ ⟨w', hw', rfl⟩
      rw [hjoined w hw, hjoined w' hw']
    · have hkeys : ∀ w ∈ (after (fun _ => []) dicts colliding).written,
          ∀ w' ∈ (after (fun _ => []) dicts colliding).written, w.key = w'.key := fun w hw w' hw' =>
        h.distinguished w hw w' hw'
          (MemoryEntry.id_of_joined_eq ((hjoined w hw).trans (hjoined w' hw').symm))
      revert hkeys
      decide
  · have hjoined : ∀ w ∈ (after (fun _ => []) dicts sharing).written,
        w.joined = "||t" ∨ w.joined = "||u" := by decide +kernel
    have hdigest : Hashlib.blake2b [] (Str.utf8 "||t") 8 ≠
        Hashlib.blake2b [] (Str.utf8 "||u") 8 := by decide
    refine ⟨?_, fun h => ?_⟩
    · apply (Set.injOn_pair.mpr fun heq => absurd heq hdigest).mono
      rintro _ ⟨w, hw, rfl⟩
      exact hjoined w hw
    · have hmetadata := h.metadata
      revert hmetadata
      decide

end SharedRun

/-! ## Entries with dictionaries of their own -/

/-- The dictionary of an entry that is written. -/
def ObjectCall.dict : ObjectCall → Option ℕ
  | .write entry => some entry.metadata
  | .clear => none

/-- The call with the entry by value. -/
def ObjectCall.byValue (dicts : Dicts) : ObjectCall → MemoryCall
  | .write entry => .write (entry.read dicts)
  | .clear => .clear

namespace SharedMemory

variable {m : SharedMemory} {entry : EntryObject}

/-- The dictionaries of the stored entries. -/
def stored (m : SharedMemory) : List ℕ := m.entries.map EntryObject.metadata

/-- A write stores at most the dictionary of its entry, and changes none but stored ones. -/
theorem write_stored (m : SharedMemory) (entry : EntryObject) :
    ((m.write entry).2.stored = m.stored ∨
        (m.write entry).2.stored = m.stored ++ [entry.metadata]) ∧
      ∀ d ∉ m.stored, (m.write entry).2.dicts d = m.dicts d := by
  cases hlookup : m.index.lookup entry.id with
  | none =>
    rw [write_of_new hlookup]
    refine ⟨.inr ?_, fun d _ => rfl⟩
    simp [stored, embedded]
  | some i =>
    cases hentry : m.entries[i]? with
    | none =>
      rw [write_of_dangling hlookup hentry]
      exact ⟨.inl rfl, fun d _ => rfl⟩
    | some existing =>
      rw [write_of_found hlookup hentry]
      -- The update is made in the dictionary of the stored entry, which stays its dictionary.
      have hat : m.stored[i]? = some existing.metadata := by
        rw [stored, List.getElem?_map, hentry, Option.map_some]
      constructor
      · left
        apply List.ext_getElem?
        intro j
        rw [stored, List.map_set, List.getElem?_set]
        split_ifs with hij hlt
        · rw [← hij]
          exact hat.symm
        · rw [← hij]
          exact (List.getElem?_eq_none_iff.mpr (by simpa [stored] using hlt)).symm
        · rfl
      · intro d hd
        apply Function.update_of_ne
        rintro rfl
        exact hd (List.mem_of_getElem? hat)

/-- Stored entries with dictionaries of their own are not in the way of a write. -/
theorem separate_of_nodup (h : m.stored.Nodup) (entry : EntryObject) : m.Separate entry := by
  intro i hi existing hexisting other hother hshared
  obtain ⟨j, hij, hother⟩ := List.mem_eraseIdx_iff_getElem?.mp hother
  have hati : m.stored[i]? = some existing.metadata := by
    rw [stored, List.getElem?_map, Option.mem_def.mp hexisting, Option.map_some]
  have hatj : m.stored[j]? = some existing.metadata := by
    rw [stored, List.getElem?_map, hother, Option.map_some, hshared]
  have hlt : j < m.stored.length := (List.getElem?_eq_some_iff.mp hatj).1
  exact absurd ((List.getElem?_inj hlt h).mp (hatj.trans hati.symm)) hij

end SharedMemory

namespace SharedRun

/-- Calls on entries with dictionaries of their own, on a memory that has none of these. -/
theorem run_byValue (s : SharedRun) (calls : List ObjectCall)
    (hfresh : (s.memory.stored ++ calls.filterMap ObjectCall.dict).Nodup) :
    (Machine.run step s calls).memory.byValue =
      Machine.run MemoryCall.act s.memory.byValue
        (calls.map (ObjectCall.byValue s.memory.dicts)) := by
  induction calls generalizing s with
  | nil => rfl
  | cons call calls ih =>
    rw [Machine.run_cons, List.map_cons, Machine.run_cons]
    cases call with
    | clear =>
      rw [ih]
      · rfl
      · exact hfresh.sublist (List.sublist_append_right ..)
    | write entry =>
      have hcons : (ObjectCall.write entry :: calls).filterMap ObjectCall.dict =
          entry.metadata :: calls.filterMap ObjectCall.dict := rfl
      rw [hcons] at hfresh
      obtain ⟨hstored, hdicts⟩ := s.memory.write_stored entry
      have hsep := SharedMemory.separate_of_nodup
        (hfresh.sublist (List.sublist_append_left ..)) entry
      have hnext : ((s.step (.write entry)).memory.stored ++
          calls.filterMap ObjectCall.dict).Nodup := by
        rcases hstored with heq | heq
        · show ((s.memory.write entry).2.stored ++ _).Nodup
          rw [heq]
          exact hfresh.sublist ((List.sublist_cons_self ..).append_left _)
        · show ((s.memory.write entry).2.stored ++ _).Nodup
          rw [heq, List.append_assoc]
          exact hfresh
      -- the calls to come find their dictionaries as they were
      have hcalls : calls.map (ObjectCall.byValue (s.step (.write entry)).memory.dicts) =
          calls.map (ObjectCall.byValue s.memory.dicts) := by
        apply List.map_congr_left
        intro call hcall
        cases call with
        | clear => rfl
        | write later =>
          have hmem : later.metadata ∈ calls.filterMap ObjectCall.dict :=
            List.mem_filterMap.mpr ⟨_, hcall, rfl⟩
          have hnot : later.metadata ∉ s.memory.stored := fun h =>
            List.disjoint_of_nodup_append hfresh h (List.mem_cons_of_mem _ hmem)
          have hdict : (s.step (.write entry)).memory.dicts later.metadata =
              s.memory.dicts later.metadata := hdicts _ hnot
          rw [ObjectCall.byValue, ObjectCall.byValue, EntryObject.read, EntryObject.read, hdict]
      rw [ih _ hnext, hcalls]
      congr 1
      exact SharedMemory.byValue_write hsep

/-- If every write brings a dictionary of its own, a memory behaves as one that has its entries by
value. -/
theorem byValue_after (embed : String → List ℚ) (dicts : Dicts) (calls : List ObjectCall)
    (hfresh : (calls.filterMap ObjectCall.dict).Nodup) :
    (after embed dicts calls).memory.byValue =
      Machine.run MemoryCall.act { embed } (calls.map (ObjectCall.byValue dicts)) :=
  run_byValue ⟨{ embed, dicts }, []⟩ calls hfresh

omit [Hashlib] in
/-- An update from a second dictionary. -/
theorem byValue_after_update :
    let _ := Hashlib.checksum
    let dicts : Dicts := fun i => if i = 1 then [("k", "v")] else []
    let calls := [ObjectCall.write { text := "t", metadata := 0 },
      .write { text := "t", confidence := 1 / 2, metadata := 1 }]
    (after (fun _ => []) dicts calls).memory.byValue =
      Machine.run MemoryCall.act { embed := fun _ => [] } (calls.map (ObjectCall.byValue dicts)) := by
  intro _ dicts calls
  exact byValue_after (fun _ => []) dicts calls (by decide)

end SharedRun

end Chen
