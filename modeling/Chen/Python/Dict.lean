import Mathlib.Data.List.Induction
import Mathlib.Data.List.Nodup

/-!
# Dictionaries

A `dict` is the list of its items in insertion order.
-/

namespace Chen

/-- A `dict`, as its items in insertion order. -/
abbrev Dict (κ υ : Type) : Type := List (κ × υ)

namespace Dict

variable {κ υ : Type} [DecidableEq κ]

/-- `d.get(k)`. -/
def get? : Dict κ υ → κ → Option υ
  | [], _ => none
  | (k', v') :: d, k => if k' = k then some v' else get? d k

/-- `d[k] = v`. A key that is there keeps its place. -/
def set : Dict κ υ → κ → υ → Dict κ υ
  | [], k, v => [(k, v)]
  | (k', v') :: d, k, v => if k' = k then (k, v) :: d else (k', v') :: set d k v

/-- `d.pop(k, None)`. -/
def erase (d : Dict κ υ) (k : κ) : Dict κ υ := d.filter (·.1 ≠ k)

/-- `d[key(x)] = merge(d.get(key(x)), x)`. -/
def upsert {ρ : Type} (key : ρ → κ) (merge : Option υ → ρ → υ) (d : Dict κ υ) (x : ρ) :
    Dict κ υ :=
  d.set (key x) (merge (d.get? (key x)) x)

/-- A key without a value stands in no item. -/
theorem get?_eq_none_iff {d : Dict κ υ} {k : κ} : d.get? k = none ↔ ∀ p ∈ d, p.1 ≠ k := by
  induction d with
  | nil => simp [get?]
  | cons p d ih =>
    simp only [get?, List.forall_mem_cons, ← ih]
    split <;> simp_all

/-- A new key goes to the end. -/
theorem set_of_get?_eq_none {d : Dict κ υ} {k : κ} (h : d.get? k = none) (v : υ) :
    d.set k v = d ++ [(k, v)] := by
  induction d with
  | nil => rfl
  | cons p d ih =>
    have hp : p.1 ≠ k := get?_eq_none_iff.mp h p (List.mem_cons_self ..)
    simp only [get?, if_neg hp] at h
    simp [set, if_neg hp, ih h]

/-- A key that is there gets its new value in place. -/
theorem set_of_get?_eq_some {d : Dict κ υ} {k : κ} {v' : υ} (h : d.get? k = some v') (v : υ) :
    ∃ l r, d = l ++ (k, v') :: r ∧ d.set k v = l ++ (k, v) :: r := by
  induction d with
  | nil => simp [get?] at h
  | cons p d ih =>
    obtain ⟨k₀, v₀⟩ := p
    by_cases hp : k₀ = k
    · simp only [get?, if_pos hp, Option.some.injEq] at h
      exact ⟨[], d, by simp [hp, h], by simp [set, hp]⟩
    · simp only [get?, if_neg hp] at h
      obtain ⟨l, r, hd, hs⟩ := ih h
      exact ⟨(k₀, v₀) :: l, r, by rw [hd]; rfl, by simp [set, hp, hs]⟩

/-- A key has the value that was set for it. -/
theorem get?_set_self (d : Dict κ υ) (k : κ) (v : υ) : (d.set k v).get? k = some v := by
  induction d with
  | nil => simp [set, get?]
  | cons p d ih =>
    by_cases hp : p.1 = k
    · simp [set, get?, hp]
    · simp [set, get?, hp, ih]

/-- Setting a key leaves the values of the others. -/
theorem get?_set_of_ne (d : Dict κ υ) {k k' : κ} (h : k' ≠ k) (v : υ) :
    (d.set k v).get? k' = d.get? k' := by
  induction d with
  | nil => simp [set, get?, h.symm]
  | cons p d ih =>
    by_cases hp : p.1 = k
    · simp [set, get?, hp, h.symm]
    · simp [set, get?, hp, ih]

/-! ## Items -/

/-- A key and its value are an item. -/
theorem mem_of_get?_eq_some {d : Dict κ υ} {k : κ} {v : υ} (h : d.get? k = some v) :
    (k, v) ∈ d := by
  obtain ⟨l, r, rfl, -⟩ := set_of_get?_eq_some h v
  simp

/-- The items after a key was set: the new one, and those that were there. -/
theorem mem_set {d : Dict κ υ} {k : κ} {v : υ} {p : κ × υ} (h : p ∈ d.set k v) :
    p = (k, v) ∨ p ∈ d := by
  cases hget : d.get? k with
  | none =>
    rw [set_of_get?_eq_none hget] at h
    simpa [or_comm] using h
  | some v' =>
    obtain ⟨l, r, rfl, hset⟩ := set_of_get?_eq_some hget v
    rw [hset] at h
    simp only [List.mem_append, List.mem_cons] at h ⊢
    tauto

/-- Keys stay distinct. -/
theorem nodup_set {d : Dict κ υ} (h : (d.map Prod.fst).Nodup) (k : κ) (v : υ) :
    ((d.set k v).map Prod.fst).Nodup := by
  cases hget : d.get? k with
  | none =>
    rw [set_of_get?_eq_none hget, List.map_append, List.map_singleton]
    refine List.Nodup.append h (List.nodup_singleton k) ?_
    rw [List.disjoint_singleton, List.mem_map]
    rintro ⟨p, hp, hk⟩
    exact get?_eq_none_iff.mp hget p hp hk
  | some v' =>
    obtain ⟨l, r, hd, hset⟩ := set_of_get?_eq_some hget v
    rw [hd] at h
    rw [hset]
    simpa using h

/-- Under distinct keys, an item is what its key gets. -/
theorem get?_eq_some_of_mem {d : Dict κ υ} (h : (d.map Prod.fst).Nodup) {k : κ} {v : υ}
    (hmem : (k, v) ∈ d) : d.get? k = some v := by
  induction d with
  | nil => cases hmem
  | cons p d ih =>
    obtain ⟨hp, hd⟩ := List.nodup_cons.mp h
    rcases List.mem_cons.mp hmem with rfl | hmem'
    · simp [get?]
    · have hne : p.1 ≠ k := by
        rintro rfl
        exact hp (List.mem_map.mpr ⟨_, hmem', rfl⟩)
      rw [get?, if_neg hne]
      exact ih hd hmem'

/-- Looking up a list of items is getting the value of a key. -/
theorem lookup_eq_get? (d : Dict κ υ) (k : κ) : List.lookup k d = d.get? k := by
  induction d with
  | nil => rfl
  | cons p d ih =>
    rw [List.lookup_cons, get?, ih]
    by_cases hp : p.1 = k
    · simp [hp]
    · rw [if_neg hp, beq_eq_false_iff_ne.mpr (Ne.symm hp)]

/-- A key that was erased has no value. -/
theorem get?_erase_self (d : Dict κ υ) (k : κ) : (d.erase k).get? k = none := by
  rw [get?_eq_none_iff]
  intro p hp
  simpa using (List.mem_filter.mp hp).2

/-- Erasing a key leaves the values of the others. -/
theorem get?_erase_of_ne (d : Dict κ υ) {k k' : κ} (h : k' ≠ k) :
    (d.erase k).get? k' = d.get? k' := by
  induction d with
  | nil => rfl
  | cons p d ih =>
    rw [erase] at ih ⊢
    by_cases hp : p.1 = k
    · rw [List.filter_cons_of_neg (by simpa using hp), ih, get?, if_neg (hp ▸ h.symm)]
    · rw [List.filter_cons_of_pos (by simpa using hp), get?, get?, ih]

/-- A dictionary of what is computed from each item. -/
theorem get?_map_items {υ' : Type} (d : Dict κ υ) (f : κ → υ → υ') (k : κ) :
    Dict.get? (d.map fun p => (p.1, f p.1 p.2)) k = (d.get? k).map (f k) := by
  induction d with
  | nil => rfl
  | cons p d ih =>
    rw [List.map_cons, get?, get?, ih]
    by_cases hp : p.1 = k
    · rw [if_pos hp, if_pos hp, hp, Option.map_some]
    · rw [if_neg hp, if_neg hp]

/-- Setting a key, and mapping the values with their keys, in either order. -/
theorem set_map_items {υ' : Type} (d : Dict κ υ) (f : κ → υ → υ') (k : κ) (v : υ) :
    Dict.set (d.map fun p => (p.1, f p.1 p.2)) k (f k v) =
      (d.set k v).map fun p => (p.1, f p.1 p.2) := by
  induction d with
  | nil => rfl
  | cons p d ih =>
    rw [List.map_cons, set, set, ih]
    split <;> rfl

/-- The value of a key in a mapped dictionary. -/
theorem get?_map_values {υ' : Type} (d : Dict κ υ) (f : υ → υ') (k : κ) :
    Dict.get? (d.map fun p => (p.1, f p.2)) k = (d.get? k).map f :=
  get?_map_items d (fun _ => f) k

/-- New keys, all distinct, go to the end one after the other. -/
theorem foldl_set_eq_append {items : List (κ × υ)} (hitems : (items.map Prod.fst).Nodup)
    {d : Dict κ υ} (hd : ∀ p ∈ items, d.get? p.1 = none) :
    items.foldl (fun d p => d.set p.1 p.2) d = d ++ items := by
  induction items generalizing d with
  | nil => simp
  | cons p items ih =>
    obtain ⟨hp, hitems⟩ := List.nodup_cons.mp hitems
    have hset : d.set p.1 p.2 = d ++ [p] := set_of_get?_eq_none (hd p (List.mem_cons_self ..)) _
    rw [List.foldl_cons, ih hitems, hset, List.append_assoc, List.singleton_append]
    intro q hq
    have hne : q.1 ≠ p.1 := fun heq => hp (heq ▸ List.mem_map_of_mem hq)
    rw [get?_set_of_ne _ hne]
    exact hd q (List.mem_cons_of_mem _ hq)

/-- Under distinct keys, setting the key of an item is setting the item. -/
theorem set_eq_listSet {d : Dict κ υ} (hd : (d.map Prod.fst).Nodup) {i : ℕ} {k : κ} {v₀ : υ}
    (hi : d[i]? = some (k, v₀)) (v : υ) : d.set k v = List.set d i (k, v) := by
  induction d generalizing i with
  | nil => simp at hi
  | cons p d ih =>
    obtain ⟨hp, hd⟩ := List.nodup_cons.mp hd
    cases i with
    | zero =>
      rw [List.getElem?_cons_zero, Option.some.injEq] at hi
      simp [set, hi]
    | succ i =>
      rw [List.getElem?_cons_succ] at hi
      have hne : p.1 ≠ k := fun heq =>
        hp (heq ▸ List.mem_map_of_mem (f := Prod.fst) (List.mem_of_getElem? hi))
      rw [set, if_neg hne, ih hd hi, List.set_cons_succ]

/-! ## Insert or merge -/

section Upsert

variable {ρ : Type} (key : ρ → κ) (merge : Option υ → ρ → υ)

/-- Under a key is the merge of the values that came with it, one after the other. -/
theorem get?_foldl_upsert (xs : List ρ) (d : Dict κ υ) (k : κ) :
    (xs.foldl (upsert key merge) d).get? k =
      (xs.filter (key · = k)).foldl (fun v x => some (merge v x)) (d.get? k) := by
  induction xs generalizing d with
  | nil => rfl
  | cons x xs ih =>
    rw [List.foldl_cons, ih]
    by_cases hk : key x = k
    · rw [List.filter_cons_of_pos (by simpa using hk), List.foldl_cons, upsert, hk, get?_set_self]
    · rw [List.filter_cons_of_neg (by simpa using hk), upsert, get?_set_of_ne _ (Ne.symm hk)]

/-- The keys after one was set: as before, with a new key at the end. -/
theorem map_fst_set (d : Dict κ υ) (k : κ) (v : υ) :
    (d.set k v).map Prod.fst =
      if k ∈ d.map Prod.fst then d.map Prod.fst else d.map Prod.fst ++ [k] := by
  induction d with
  | nil => simp [set]
  | cons p d ih =>
    by_cases hp : p.1 = k
    · simp [set, hp]
    · rw [set, if_neg hp, List.map_cons, ih]
      by_cases hk : k ∈ d.map Prod.fst
      · simp [hk]
      · simp [hk, Ne.symm hp]

/-- The keys are the distinct keys that came, each where it came first. -/
theorem map_fst_foldl_upsert [BEq κ] [LawfulBEq κ] (xs : List ρ) :
    (xs.foldl (upsert key merge) ([] : Dict κ υ)).map Prod.fst = (xs.map key).eraseDups := by
  induction xs using List.reverseRecOn with
  | nil => rfl
  | append_singleton xs x ih =>
    rw [List.foldl_append, List.foldl_cons, List.foldl_nil, upsert, map_fst_set, ih,
      List.map_append, List.eraseDups_append]
    simp only [List.mem_eraseDups, List.map_singleton, List.removeAll]
    by_cases hx : key x ∈ xs.map key
    · rw [if_pos hx, List.filter_cons_of_neg (by simpa using hx)]
      simp
    · rw [if_neg hx, List.filter_cons_of_pos (by simpa using hx)]
      rfl

end Upsert

end Dict

end Chen
