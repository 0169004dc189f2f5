import Mathlib.Algebra.BigOperators.Group.List.Basic
import Mathlib.Data.List.Forall2

/-!
# Row-major arrays

An array of a shape is the list of its elements, the last axis first. The offset of an index and the
index at an offset undo each other, so that an array is the same thing as a function of the index.
-/

namespace Chen.RowMajor

/-- The index is one of the shape. -/
abbrev InShape (shape idx : List ℕ) : Prop := List.Forall₂ (· < ·) idx shape

/-- Where the element of an index is. -/
def offset : List ℕ → List ℕ → ℕ
  | _ :: shape, i :: idx => i * shape.prod + offset shape idx
  | _, _ => 0

/-- The index of the element at an offset. -/
def coords : List ℕ → ℕ → List ℕ
  | [], _ => []
  | _ :: shape, k => k / shape.prod :: coords shape (k % shape.prod)

/-- An index of the shape has an offset within the buffer. -/
theorem offset_lt {shape idx : List ℕ} (h : InShape shape idx) : offset shape idx < shape.prod := by
  induction h with
  | nil => simp [offset]
  | @cons i n idx shape hi _ ih =>
    rw [offset, List.prod_cons]
    calc i * shape.prod + offset shape idx < (i + 1) * shape.prod := by
          rw [Nat.add_mul, Nat.one_mul]
          omega
      _ ≤ n * shape.prod := Nat.mul_le_mul_right _ hi

/-- The coordinates of an offset are the index it was made from. -/
theorem coords_offset {shape idx : List ℕ} (h : InShape shape idx) :
    coords shape (offset shape idx) = idx := by
  induction h with
  | nil => rfl
  | @cons i n idx shape _ hidx ih =>
    have hlt := offset_lt hidx
    have hpos : 0 < shape.prod := by omega
    rw [offset, coords, Nat.mul_comm, Nat.mul_add_div hpos, Nat.div_eq_of_lt hlt,
      Nat.mul_add_mod, Nat.mod_eq_of_lt hlt, ih, Nat.add_zero]

/-- The coordinates of a place in the buffer are an index of the shape. -/
theorem inShape_coords {shape : List ℕ} {k : ℕ} (hk : k < shape.prod) :
    InShape shape (coords shape k) := by
  induction shape generalizing k with
  | nil => exact .nil
  | cons n shape ih =>
    rw [List.prod_cons] at hk
    have hpos : 0 < shape.prod := Nat.pos_of_mul_pos_left (Nat.zero_lt_of_lt hk)
    exact .cons (Nat.div_lt_of_lt_mul (by rwa [Nat.mul_comm])) (ih (Nat.mod_lt _ hpos))

/-- The offset of the coordinates of a place is that place. -/
theorem offset_coords {shape : List ℕ} {k : ℕ} (hk : k < shape.prod) :
    offset shape (coords shape k) = k := by
  induction shape generalizing k with
  | nil =>
    rw [List.prod_nil] at hk
    simp only [offset]
    omega
  | cons n shape ih =>
    rw [List.prod_cons] at hk
    have hpos : 0 < shape.prod := Nat.pos_of_mul_pos_left (Nat.zero_lt_of_lt hk)
    rw [coords, offset, ih (Nat.mod_lt _ hpos), Nat.mul_comm]
    exact Nat.div_add_mod ..

/-! ## Arrays from functions -/

variable {α : Type}

/-- The array with the element `f idx` at every index. -/
def tabulate (shape : List ℕ) (f : List ℕ → α) : List α :=
  (List.range shape.prod).map fun k => f (coords shape k)

/-- A table has one cell for each index of its shape. -/
@[simp] theorem length_tabulate (shape : List ℕ) (f : List ℕ → α) :
    (tabulate shape f).length = shape.prod := by
  simp [tabulate]

/-- The cell at the offset of an index has the value of that index. -/
theorem getElem?_tabulate {shape idx : List ℕ} (h : InShape shape idx) (f : List ℕ → α) :
    (tabulate shape f)[offset shape idx]? = some (f idx) := by
  rw [tabulate, List.getElem?_map, List.getElem?_range (offset_lt h), Option.map_some,
    coords_offset h]

/-- Arrays with the same element at every index are equal. -/
theorem ext {shape : List ℕ} {xs ys : List α} (hxs : xs.length = shape.prod)
    (hys : ys.length = shape.prod)
    (h : ∀ idx, InShape shape idx → xs[offset shape idx]? = ys[offset shape idx]?) : xs = ys := by
  apply List.ext_getElem?
  intro k
  by_cases hk : k < shape.prod
  · have hidx := h _ (inShape_coords hk)
    rwa [offset_coords hk] at hidx
  · rw [List.getElem?_eq_none (by omega), List.getElem?_eq_none (by omega)]

/-- Where the last axis is split in two, every element stays at its offset. -/
theorem offset_split {shape : List ℕ} (idx : List ℕ) (hlen : idx.length = shape.length)
    (m n i j : ℕ) :
    offset (shape ++ [m, n]) (idx ++ [i, j]) = offset (shape ++ [m * n]) (idx ++ [i * n + j]) := by
  induction shape generalizing idx with
  | nil =>
    rw [List.eq_nil_of_length_eq_zero hlen]
    simp [offset]
  | cons k shape ih =>
    cases idx with
    | nil => simp at hlen
    | cons a idx =>
      rw [List.cons_append, List.cons_append, List.cons_append, List.cons_append, offset, offset,
        ih idx (by simpa using hlen)]
      simp

/-! ## Arrays one behind the other -/

/-- Among chunks of one length, an element is found by its chunk and its place there. -/
theorem getElem?_flatten_chunks {chunks : List (List α)} {n : ℕ}
    (h : ∀ chunk ∈ chunks, chunk.length = n) (k : ℕ) {j : ℕ} (hj : j < n) :
    chunks.flatten[k * n + j]? = chunks[k]?.bind (·[j]?) := by
  induction chunks generalizing k with
  | nil => simp
  | cons chunk chunks ih =>
    have hlen : chunk.length = n := h chunk List.mem_cons_self
    rw [List.flatten_cons]
    cases k with
    | zero =>
      rw [Nat.zero_mul, Nat.zero_add, List.getElem?_append_left (by omega)]
      rfl
    | succ k =>
      have hstep : (k + 1) * n + j = n + (k * n + j) := by
        rw [Nat.add_mul, Nat.one_mul]
        omega
      rw [hstep, ← hlen, List.getElem?_append_right (by omega), Nat.add_sub_cancel_left, hlen,
        ih fun chunk hchunk => h chunk (List.mem_cons_of_mem _ hchunk)]
      rfl

end Chen.RowMajor
