import Mathlib.Data.List.Induction
import Mathlib.Data.Option.NAry

/-!
# Tables with replacement

A table under the operation that removes what has the same key and adds the new row. After a series
of writes a key finds the last row written for it. Where a write updates the row that has the key,
what it keeps of that row is from the first row written. The cells of an array are such a table.
-/

namespace Chen.LastWrite

variable {ρ κ β : Type} [DecidableEq κ] (key : ρ → κ)

/-- Insert `x`, replacing the rows with its key. -/
def replace (rows : List ρ) (x : ρ) : List ρ := rows.filter (key · ≠ key x) ++ [x]

/-- The row that has the key. -/
def select (rows : List ρ) (k : κ) : Option ρ := rows.find? (key · = k)

/-- The last of `xs` with the key. -/
def last (xs : List ρ) (k : κ) : Option ρ := xs.reverse.find? (key · = k)

/-- A row is found under its key after it replaced what was there. -/
theorem select_replace_self (rows : List ρ) (x : ρ) :
    select key (replace key rows x) (key x) = some x := by
  rw [select, replace, List.find?_append, List.find?_eq_none.mpr]
  · simp
  · intro y hy
    simpa using (List.mem_filter.mp hy).2

/-- A row does not change what is found under another key. -/
theorem select_replace_of_ne (rows : List ρ) (x : ρ) {k : κ} (h : k ≠ key x) :
    select key (replace key rows x) k = select key rows k := by
  have hkept : (rows.filter (key · ≠ key x)).find? (key · = k) = rows.find? (key · = k) := by
    rw [List.find?_filter]
    congr 1
    funext y
    by_cases hy : key y = k <;> simp [hy, h]
  have hnew : [x].find? (key · = k) = none := by simp [h.symm]
  rw [select, replace, List.find?_append, hkept, hnew, Option.or_none, select]

/-- Under distinct keys, every row is found. -/
theorem select_of_mem {rows : List ρ} (hrows : (rows.map key).Nodup) {x : ρ} (hx : x ∈ rows) :
    select key rows (key x) = some x := by
  induction rows with
  | nil => cases hx
  | cons y rows ih =>
    obtain ⟨hy, hrows⟩ := List.nodup_cons.mp hrows
    unfold select at ih ⊢
    rcases List.mem_cons.mp hx with rfl | hmem
    · simp
    · have hne : key y ≠ key x := fun heq => hy (heq ▸ List.mem_map_of_mem hmem)
      rw [List.find?_cons_of_neg (by simpa using hne)]
      exact ih hrows hmem

/-- After a series of writes the table has the last row written, or else what it had before. -/
theorem select_foldl (rows xs : List ρ) (k : κ) :
    select key (xs.foldl (replace key) rows) k = (last key xs k).or (select key rows k) := by
  induction xs generalizing rows with
  | nil => rfl
  | cons x xs ih =>
    rw [List.foldl_cons, ih, last, last, List.reverse_cons, List.find?_append]
    by_cases h : key x = k
    · rw [← h, select_replace_self]
      simp
    · rw [select_replace_of_ne key rows x (Ne.symm h)]
      simp [h]

/-- The last one with a key is one behind which no other has it. -/
theorem last_eq_some_iff {xs : List ρ} {x : ρ} :
    last key xs (key x) = some x ↔ ∃ l r, xs = l ++ x :: r ∧ ∀ y ∈ r, key y ≠ key x := by
  rw [last, List.find?_eq_some_iff_append]
  constructor
  · rintro ⟨-, r, l, hxs, hr⟩
    refine ⟨l.reverse, r.reverse, ?_, fun y hy => by simpa using hr y (List.mem_reverse.mp hy)⟩
    rw [← List.reverse_reverse xs, hxs]
    simp
  · rintro ⟨l, r, rfl, hr⟩
    exact ⟨by simp, r.reverse, l.reverse, by simp, fun y hy => by
      simpa using hr y (List.mem_reverse.mp hy)⟩

/-- Every key in the list has a last element. -/
theorem exists_last_of_mem {xs : List ρ} {x : ρ} (hx : x ∈ xs) :
    ∃ y ∈ xs, last key xs (key x) = some y ∧ key y = key x := by
  have hsome : (last key xs (key x)).isSome := by
    rw [last, List.find?_isSome]
    exact ⟨x, List.mem_reverse.mpr hx, by simp⟩
  obtain ⟨y, hy⟩ := Option.isSome_iff_exists.mp hsome
  have hkey : key y = key x := by simpa using List.find?_some hy
  exact ⟨y, List.mem_reverse.mp (List.mem_of_find?_eq_some hy), hy, hkey⟩

/-- In a sorted list the last one with a key comes after the others that have it. -/
theorem rel_last_of_pairwise {R : ρ → ρ → Prop} {xs : List ρ} (hxs : xs.Pairwise R) {x y : ρ}
    (hx : x ∈ xs) (hlast : last key xs (key x) = some y) : x = y ∨ R x y := by
  have hkey : key y = key x := by simpa using List.find?_some hlast
  rw [← hkey] at hlast
  obtain ⟨l, r, rfl, hr⟩ := (last_eq_some_iff key).mp hlast
  rcases List.mem_append.mp hx with hl | hx
  · exact .inr ((List.pairwise_append.mp hxs).2.2 x hl y (List.mem_cons_self ..))
  · rcases List.mem_cons.mp hx with rfl | hmem
    · exact .inl rfl
    · exact absurd hkey.symm (hr x hmem)

/-- Every row written is still found under its key, as far as `π` tells rows apart, if and only if
`π` does not tell apart two rows with one key. -/
theorem last_faithful_iff (π : ρ → β) (xs : List ρ) :
    (∀ x ∈ xs, ∃ y, last key xs (key x) = some y ∧ π y = π x) ↔
      ∀ x ∈ xs, ∀ y ∈ xs, key x = key y → π x = π y := by
  constructor
  · intro h x hx y hy hkey
    obtain ⟨z, hz, hzx⟩ := h x hx
    obtain ⟨z', hz', hzy⟩ := h y hy
    rw [hkey, hz'] at hz
    cases hz
    exact hzx.symm.trans hzy
  · intro h x hx
    obtain ⟨y, hmem, hy, hkey⟩ := exists_last_of_mem key hx
    exact ⟨y, hy, h y hmem x hx hkey⟩

/-! ## Arrays -/

section Arrays

variable (cell : ρ → ℕ) (value : ρ → β)

/-- After a series of writes a cell has what was written to it last, or else what it had before. -/
theorem getElem?_foldl_set (v : List β) (xs : List ρ) {i : ℕ} (hi : i < v.length) :
    (xs.foldl (fun out x => out.set (cell x) (value x)) v)[i]? =
      ((last cell xs i).map value).or v[i]? := by
  induction xs generalizing v with
  | nil => rfl
  | cons x xs ih =>
    have hlast : last cell (x :: xs) i =
        (last cell xs i).or (if cell x = i then some x else none) := by
      by_cases hx : cell x = i <;> simp [last, hx]
    rw [List.foldl_cons, ih _ (by simpa using hi), hlast, List.getElem?_set]
    cases last cell xs i with
    | some y => rfl
    | none =>
      by_cases hx : cell x = i
      · simp [hx, hi]
      · simp [hx]

/-- Writing cells does not change the number of cells. -/
theorem length_foldl_set (v : List β) (xs : List ρ) :
    (xs.foldl (fun out x => out.set (cell x) (value x)) v).length = v.length := by
  induction xs generalizing v with
  | nil => rfl
  | cons x xs ih => rw [List.foldl_cons, ih, List.length_set]

/-- Only the last write to each cell matters. -/
theorem foldl_set_congr {v : List β} {xs ys : List ρ}
    (h : ∀ i < v.length, (last cell xs i).map value = (last cell ys i).map value) :
    xs.foldl (fun out x => out.set (cell x) (value x)) v =
      ys.foldl (fun out x => out.set (cell x) (value x)) v := by
  apply List.ext_getElem?
  intro i
  by_cases hi : i < v.length
  · rw [getElem?_foldl_set cell value v xs hi, getElem?_foldl_set cell value v ys hi, h i hi]
  · have hout (zs : List ρ) :
        (zs.foldl (fun out x => out.set (cell x) (value x)) v)[i]? = none := by
      rw [List.getElem?_eq_none_iff, length_foldl_set]
      omega
    rw [hout, hout]

end Arrays

/-! ## Insert or update -/

/-- The first of `xs` with the key. -/
def first (xs : List ρ) (k : κ) : Option ρ := xs.find? (key · = k)

/-- Insert `x`, or let `update` change the row that has its key. -/
def upsert (update : ρ → ρ → ρ) : List ρ → ρ → List ρ
  | [], x => [x]
  | y :: rows, x => if key y = key x then update y x :: rows else y :: upsert update rows x

/-- The first element of a key is in the list and has the key. -/
theorem mem_of_first {xs : List ρ} {k : κ} {x : ρ} (h : first key xs k = some x) :
    x ∈ xs ∧ key x = k :=
  ⟨List.mem_of_find?_eq_some h, by simpa using List.find?_some h⟩

/-- The last element of a key is in the list and has the key. -/
theorem mem_of_last {xs : List ρ} {k : κ} {x : ρ} (h : last key xs k = some x) :
    x ∈ xs ∧ key x = k :=
  ⟨List.mem_reverse.mp (List.mem_of_find?_eq_some h), by simpa using List.find?_some h⟩

/-- Where a key has a last element, it has a first one. -/
theorem exists_first_of_last {xs : List ρ} {k : κ} {x : ρ} (h : last key xs k = some x) :
    ∃ y, first key xs k = some y := by
  obtain ⟨hx, hkey⟩ := mem_of_last key h
  rw [← Option.isSome_iff_exists, first, List.find?_isSome]
  exact ⟨x, hx, by simpa using hkey⟩

/-- A key without a last element is the key of no element. -/
theorem last_eq_none_iff {xs : List ρ} {k : κ} : last key xs k = none ↔ ∀ x ∈ xs, key x ≠ k := by
  simp [last, List.find?_eq_none]

/-- A key without a first element is the key of no element. -/
theorem first_eq_none_iff {xs : List ρ} {k : κ} : first key xs k = none ↔ ∀ x ∈ xs, key x ≠ k := by
  simp [first, List.find?_eq_none]

/-- The last row with the key is still the last when other rows are left out. -/
theorem last_filter {xs : List ρ} {k : κ} {x : ρ} (h : last key xs k = some x) {p : ρ → Bool}
    (hp : p x) : last key (xs.filter p) k = some x := by
  unfold last at h ⊢
  rw [← List.filter_reverse, List.find?_filter]
  generalize xs.reverse = ys at h ⊢
  induction ys with
  | nil => cases h
  | cons y ys ih =>
    by_cases hy : key y = k
    · rw [List.find?_cons_of_pos (by simpa using hy)] at h
      cases h
      rw [List.find?_cons_of_pos (by simp [hp, hy])]
    · rw [List.find?_cons_of_neg (by simpa using hy)] at h
      rw [List.find?_cons_of_neg (by simp [hy])]
      exact ih h

section FilterMap

variable {σ : Type} {key} {key' : σ → κ} {f : ρ → Option σ}
  (hf : ∀ x y, f x = some y → key' y = key x)

include hf

/-- The first of what came of the rows came of the first row of which something came. -/
theorem first_filterMap (xs : List ρ) (k : κ) :
    first key' (xs.filterMap f) k = (first key (xs.filter fun x => (f x).isSome) k).bind f := by
  induction xs with
  | nil => rfl
  | cons x xs ih =>
    unfold first at ih ⊢
    cases hx : f x with
    | none => simp [hx, ih]
    | some y =>
      by_cases hk : key x = k
      · simp [hx, hf x y hx, hk]
      · simp [hx, hf x y hx, hk, ih]

/-- The last element of a mapped list comes from the last one that is not dropped. -/
theorem last_filterMap (xs : List ρ) (k : κ) :
    last key' (xs.filterMap f) k = (last key (xs.filter fun x => (f x).isSome) k).bind f := by
  have hfirst := first_filterMap hf xs.reverse k
  rwa [List.filterMap_reverse, List.filter_reverse] at hfirst

end FilterMap

section Upsert

variable {key} {update : ρ → ρ → ρ} (hkey : ∀ y x, key (update y x) = key y)

include hkey

/-- After an upsert, the row under its key is the update of the old one, or the new row. -/
theorem select_upsert_self (rows : List ρ) (x : ρ) :
    select key (upsert key update rows x) (key x) =
      some ((select key rows (key x)).elim x (update · x)) := by
  induction rows with
  | nil => simp [upsert, select]
  | cons y rows ih =>
    unfold select at ih ⊢
    by_cases hy : key y = key x
    · simp [upsert, hkey, hy]
    · simp [upsert, hy, ih]

/-- An upsert does not change what is found under another key. -/
theorem select_upsert_of_ne (rows : List ρ) (x : ρ) {k : κ} (h : k ≠ key x) :
    select key (upsert key update rows x) k = select key rows k := by
  induction rows with
  | nil => simp [upsert, select, h.symm]
  | cons y rows ih =>
    unfold select at ih ⊢
    by_cases hy : key y = key x
    · simp [upsert, hkey, hy, h.symm]
    · simp [upsert, hy, List.find?_cons, ih]

omit hkey in
/-- A row whose key is new goes to the end. -/
theorem upsert_of_select_none {rows : List ρ} {x : ρ} (h : select key rows (key x) = none) :
    upsert key update rows x = rows ++ [x] := by
  induction rows with
  | nil => rfl
  | cons y rows ih =>
    unfold select at ih h
    by_cases hy : key y = key x
    · simp [hy] at h
    · rw [List.find?_cons_of_neg (by simpa using hy)] at h
      rw [upsert, if_neg hy, ih h, List.cons_append]

omit hkey in
/-- A row whose key is that of the row at `i` changes that row. -/
theorem upsert_eq_modify {rows : List ρ} {x y : ρ} {i : ℕ} (hrows : (rows.map key).Nodup)
    (hi : rows[i]? = some y) (hy : key y = key x) :
    upsert key update rows x = rows.modify i (update · x) := by
  induction rows generalizing i with
  | nil => simp at hi
  | cons z rows ih =>
    rw [List.map_cons, List.nodup_cons] at hrows
    cases i with
    | zero =>
      rw [List.getElem?_cons_zero, Option.some.injEq] at hi
      rw [upsert, hi, if_pos hy]
      rfl
    | succ i =>
      rw [List.getElem?_cons_succ] at hi
      have hz : key z ≠ key x := by
        intro hz
        rw [hz, ← hy] at hrows
        exact hrows.1 (List.mem_map_of_mem (List.mem_of_getElem? hi))
      rw [upsert, if_neg hz, ih hrows.2 hi, List.modify_succ_cons]

/-- After a series of writes to an empty table, what updates keep is from the first row written, and
the rest from the last. -/
theorem select_foldl_upsert (hself : ∀ x, update x x = x)
    (hupdate : ∀ x y z, update (update x y) z = update x z) (xs : List ρ) (k : κ) :
    select key (xs.foldl (upsert key update) []) k =
      Option.map₂ update (first key xs k) (last key xs k) := by
  induction xs using List.reverseRecOn with
  | nil => rfl
  | append_singleton xs x ih =>
    have hlast : last key (xs ++ [x]) k = if key x = k then some x else last key xs k := by
      -- the last row has the key: it updates what the rows before it left
      by_cases hx : key x = k <;> simp [last, hx]
    have hfirst : first key (xs ++ [x]) k =
        (first key xs k).or (if key x = k then some x else none) := by
      rw [first, first, List.find?_append]
      congr 1
      by_cases hx : key x = k <;> simp [hx]
    rw [List.foldl_append, List.foldl_cons, List.foldl_nil, hlast, hfirst]
    by_cases hx : key x = k
    · subst hx
      rw [select_upsert_self hkey, ih, if_pos rfl, if_pos rfl]
      cases hfound : last key xs (key x) with
      | none =>
        rw [(first_eq_none_iff key).mpr ((last_eq_none_iff key).mp hfound)]
        simp [hself]
      | some z =>
        obtain ⟨y, hy⟩ := exists_first_of_last key hfound
        simp [hy, hupdate]
    · rw [select_upsert_of_ne hkey _ _ (Ne.symm hx), ih, if_neg hx, if_neg hx, Option.or_none]

end Upsert

end Chen.LastWrite
