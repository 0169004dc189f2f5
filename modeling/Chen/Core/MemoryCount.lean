import Chen.Core.MemoryIndex

/-!
# How many entries a memory gives out

`retrieve` gives the `k` best entries, or all that qualify when there are fewer. The pipelines only
write entries that qualify, and an entry of the default store never stops doing so.
-/

namespace Chen

/-- A memory of which it is known how many entries can be retrieved: `retrieve` gives `k` of them
as long as there are `k`, and no write of a qualifying entry makes them fewer. -/
class CountedMemory (μ : Type) extends Memory μ where
  available : μ → ℕ
  length_retrieve (query : String) {k : ℤ} (hk : 0 < k) (m : μ) :
    (retrieve query k m).length = min k.toNat (available m)
  available_write_le {entry : MemoryEntry} (hconf : 0 ≤ entry.confidence) (m : μ) :
    available m ≤ available (write entry m).2

instance : CountedMemory NoMemory where
  available _ := 0
  length_retrieve _ _ _ _ := (Nat.min_zero _).symm
  available_write_le _ _ := Nat.le_refl 0

namespace InMemoryMemory

/-- An entry that `retrieve` takes with the confidence it asks for by default. -/
def qualifies (e : MemoryEntry) : Bool := decide (0 ≤ e.confidence)

/-- A query returns `k` entries, or all that qualify. -/
theorem length_retrieve (query : String) {k : ℤ} (hk : 0 < k) (m : InMemoryMemory) :
    (m.retrieve query k none 0).length = min k.toNat (m.entries.countP qualifies) := by
  rw [retrieve, List.length_map, sliceTo_of_nonneg _ hk.le, List.length_take,
    List.length_insertionSort, List.length_map, List.countP_eq_length_filter]
  simp only [Option.all_none, Bool.true_and]
  rfl

/-- An update by a qualifying entry leaves no fewer of them. -/
theorem countP_modify_ge {new : MemoryEntry} (hnew : qualifies new) (es : List MemoryEntry)
    (i : ℕ) : es.countP qualifies ≤ (es.modify i (updateEntry · new)).countP qualifies := by
  induction es generalizing i with
  | nil => simp
  | cons e es ih =>
    cases i with
    | zero =>
      have hupdated : qualifies (updateEntry e new) = true := hnew
      rw [List.modify_zero_cons, List.countP_cons_of_pos hupdated, List.countP_cons]
      split <;> omega
    | succ i =>
      rw [List.modify_succ_cons, List.countP_cons, List.countP_cons]
      exact Nat.add_le_add_right (ih i) _

/-- A write takes no qualifying entry away. -/
theorem countP_write_ge [Hashlib] {entry : MemoryEntry} (hconf : 0 ≤ entry.confidence)
    (m : InMemoryMemory) :
    m.entries.countP qualifies ≤ (m.write entry).2.entries.countP qualifies := by
  have hnew : qualifies (m.embedded entry) = true := decide_eq_true hconf
  cases hlookup : m.index.lookup entry.id with
  | none =>
    rw [write_of_lookup_none hlookup, List.countP_append]
    exact Nat.le_add_right _ _
  | some i =>
    rw [write_of_lookup_some hlookup]
    exact countP_modify_ge hnew _ i

instance [Hashlib] : CountedMemory InMemoryMemory where
  available m := m.entries.countP qualifies
  length_retrieve query _ hk m := m.length_retrieve query hk
  available_write_le hconf m := m.countP_write_ge hconf

end InMemoryMemory

end Chen
