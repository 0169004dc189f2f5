import Chen.Core.KVCache
import Chen.Library.RowMajor
import Mathlib.Algebra.GroupWithZero.Nat

/-!
# Arrays of several axes

The operations of numpy that the backends apply to keys and values. Each of them is given by the
element that its result has at every index; the order in memory matters for `reshape` only.
-/

namespace Chen.Tensor

open RowMajor (InShape offset)

/-- The element at an index. -/
def get (t : Tensor) (idx : List ℕ) : ℚ := t.data.getD (offset t.shape idx) 0

/-- The array with the element `f idx` at every index. -/
def ofFn (shape : List ℕ) (f : List ℕ → ℚ) : Tensor where
  shape := shape
  data := RowMajor.tabulate shape f
  size_eq := RowMajor.length_tabulate shape f

@[simp] theorem shape_ofFn (shape : List ℕ) (f : List ℕ → ℚ) : (ofFn shape f).shape = shape := rfl

/-- The element at an index stands in the buffer at its offset. -/
theorem getElem?_data {t : Tensor} {idx : List ℕ} (h : InShape t.shape idx) :
    t.data[offset t.shape idx]? = some (t.get idx) := by
  have hlt := RowMajor.offset_lt h
  rw [← t.size_eq] at hlt
  rw [get, List.getD_eq_getElem?_getD, List.getElem?_eq_getElem hlt, Option.getD_some]

/-- The elements of a tensor that is made from a function. -/
theorem get_ofFn {shape idx : List ℕ} (h : InShape shape idx) (f : List ℕ → ℚ) :
    (ofFn shape f).get idx = f idx := by
  have hdata : (ofFn shape f).data[offset shape idx]? = some (f idx) :=
    RowMajor.getElem?_tabulate h f
  exact Option.some.inj ((getElem?_data h).symm.trans hdata)

/-- Arrays are equal if their shapes are, and the elements at every index. -/
theorem ext_get {t u : Tensor} (hshape : t.shape = u.shape)
    (h : ∀ idx, InShape t.shape idx → t.get idx = u.get idx) : t = u := by
  have hdata : t.data = u.data := by
    refine RowMajor.ext t.size_eq (hshape ▸ u.size_eq) fun idx hidx => ?_
    rw [getElem?_data hidx, h idx hidx, hshape, getElem?_data (hshape ▸ hidx)]
  cases t
  cases u
  cases hshape
  cases hdata
  rfl

/-- `np.zeros(shape)`. -/
def zeros (shape : List ℕ) : Tensor where
  shape := shape
  data := List.replicate shape.prod 0
  size_eq := List.length_replicate

/-- `np.zeros_like(t)`. -/
def zerosLike (t : Tensor) : Tensor := zeros t.shape

/-- An array with every element converted. -/
def map (f : ℚ → ℚ) (t : Tensor) : Tensor where
  shape := t.shape
  data := t.data.map f
  size_eq := by rw [List.length_map, t.size_eq]

/-- `t[i, j]`, with any number of leading indices. -/
def index (t : Tensor) (lead : List ℕ) : Except Exn Tensor :=
  if InShape (t.shape.take lead.length) lead then
    .ok (ofFn (t.shape.drop lead.length) fun idx => t.get (lead ++ idx))
  else .error (.other "IndexError" "index out of bounds")

/-- `t[:n]`. -/
def firstRows (t : Tensor) (n : ℕ) : Except Exn Tensor :=
  match t.shape with
  | [] => .error (.other "IndexError"
      "too many indices for array: array is 0-dimensional, but 1 were indexed")
  | rows :: row => .ok (ofFn (min n rows :: row) t.get)

/-- The rows of a concatenation fill its buffer. -/
theorem sum_length_data {ts : List Tensor} {row : List ℕ}
    (h : ∀ t ∈ ts, t.shape ≠ [] ∧ t.shape.tail = row) :
    (ts.map (·.data)).flatten.length = ((ts.map (·.shape.headD 0)).sum :: row).prod := by
  induction ts with
  | nil => simp
  | cons t ts ih =>
    obtain ⟨⟨hne, htail⟩, hrest⟩ := List.forall_mem_cons.mp h
    obtain ⟨rows, row', hshape⟩ := List.exists_cons_of_ne_nil hne
    rw [hshape, List.tail_cons] at htail
    rw [List.map_cons, List.flatten_cons, List.length_append, ih hrest, t.size_eq, hshape, htail]
    simp [hshape, Nat.add_mul]

/-- `np.concatenate(ts, axis=0)`. -/
def concatenate (ts : List Tensor) : Except Exn Tensor :=
  match ts with
  | [] => .error (.value "need at least one array to concatenate")
  | t :: _ =>
    if h : ∀ u ∈ ts, u.shape ≠ [] ∧ u.shape.tail = t.shape.tail then
      .ok ⟨(ts.map (·.shape.headD 0)).sum :: t.shape.tail, (ts.map (·.data)).flatten,
        sum_length_data h⟩
    else .error (.value
      "all the input array dimensions except for the concatenation axis must match exactly")

/-- `t.transpose(*axes)`: axis `i` of the result is axis `axes[i]` of `t`. -/
def transpose (t : Tensor) (axes : List ℕ) : Except Exn Tensor :=
  if axes.Perm (List.range t.shape.length) then
    .ok (ofFn (axes.map fun a => t.shape.getD a 0) fun idx =>
      t.get ((List.range t.shape.length).map fun a => idx.getD (axes.idxOf a) 0))
  else .error (.value "axes don't match array")

/-- `t.reshape(*shape)`. -/
def reshape (t : Tensor) (shape : List ℕ) : Except Exn Tensor :=
  if h : t.data.length = shape.prod then .ok ⟨shape, t.data, h⟩
  else .error (.value
    s!"cannot reshape array of size {t.data.length} into shape {shape}")

/-- An array stretched to a shape along the axes that it lacks or that have one element. -/
def broadcastTo (t : Tensor) (shape : List ℕ) : Except Exn Tensor :=
  let added := shape.length - t.shape.length
  if List.Forall₂ (fun n m => n = m ∨ n = 1) t.shape (shape.drop added) then
    .ok (ofFn shape fun idx =>
      t.get (List.zipWith (fun n i => if n = 1 then 0 else i) t.shape (idx.drop added)))
  else .error (.value
    s!"could not broadcast input array from shape {t.shape} into shape {shape}")

/-- `t[i, j] = x`, with any number of leading indices. -/
def setIndex (t : Tensor) (lead : List ℕ) (x : Tensor) : Except Exn Tensor :=
  if InShape (t.shape.take lead.length) lead then do
    let x ← x.broadcastTo (t.shape.drop lead.length)
    .ok (ofFn t.shape fun idx =>
      if idx.take lead.length = lead then x.get (idx.drop lead.length) else t.get idx)
  else .error (.other "IndexError" "index out of bounds")

/-! ## Elements -/

/-- An index of a tensor of three dimensions. -/
theorem inShape_three {a b c i j k : ℕ} (hi : i < a) (hj : j < b) (hk : k < c) :
    InShape [a, b, c] [i, j, k] := .cons hi (.cons hj (.cons hk .nil))

/-- An index of a tensor of three dimensions has three parts. -/
theorem exists_of_inShape_three {a b c : ℕ} {idx : List ℕ} (h : InShape [a, b, c] idx) :
    ∃ i < a, ∃ j < b, ∃ k < c, idx = [i, j, k] := by
  obtain ⟨i, _, hi, h₁, rfl⟩ := List.forall₂_cons_right_iff.mp h
  obtain ⟨j, _, hj, h₂, rfl⟩ := List.forall₂_cons_right_iff.mp h₁
  obtain ⟨k, _, hk, h₃, rfl⟩ := List.forall₂_cons_right_iff.mp h₂
  cases h₃
  exact ⟨i, hi, j, hj, k, hk, rfl⟩

/-- `t[i, j, …]` has the elements that begin with this index. -/
theorem index_spec {t : Tensor} {lead shape rest : List ℕ} (hlead : InShape shape lead)
    (hshape : t.shape = shape ++ rest) :
    ∃ u, t.index lead = .ok u ∧ u.shape = rest ∧
      ∀ idx, InShape rest idx → u.get idx = t.get (lead ++ idx) := by
  have hlen : lead.length = shape.length := hlead.length_eq
  refine ⟨ofFn rest fun idx => t.get (lead ++ idx), ?_, rfl, fun idx hidx => get_ofFn hidx _⟩
  rw [index, hshape, hlen, List.take_left, List.drop_left, if_pos hlead]

/-- What the array under an index is, up to the elements at every further index. -/
theorem index_eq {t u : Tensor} {lead shape : List ℕ} (hlead : InShape shape lead)
    (hshape : t.shape = shape ++ u.shape)
    (h : ∀ idx, InShape u.shape idx → u.get idx = t.get (lead ++ idx)) : t.index lead = .ok u := by
  obtain ⟨v, hv, hvshape, hget⟩ := index_spec hlead hshape
  rw [hv, ext_get hvshape fun idx hidx => ?_]
  rw [hvshape] at hidx
  rw [hget idx hidx, h idx hidx]

/-- The elements of a mapped tensor. -/
theorem get_map (f : ℚ → ℚ) {t : Tensor} {idx : List ℕ} (h : InShape t.shape idx) :
    (t.map f).get idx = f (t.get idx) := by
  have hdata := getElem?_data h
  rw [get, List.getD_eq_getElem?_getD]
  show ((t.data.map f)[offset t.shape idx]?).getD 0 = _
  rw [List.getElem?_map, hdata]
  rfl

/-- `t[:n]` has the elements of the first `n` rows. -/
theorem firstRows_spec {t : Tensor} {rows : ℕ} {row : List ℕ} (hshape : t.shape = rows :: row)
    {n : ℕ} (hn : n ≤ rows) :
    ∃ u, t.firstRows n = .ok u ∧ u.shape = n :: row ∧
      ∀ idx, InShape u.shape idx → u.get idx = t.get idx := by
  refine ⟨ofFn (n :: row) t.get, ?_, rfl, fun idx hidx => get_ofFn hidx _⟩
  rw [firstRows, hshape]
  show Except.ok (ofFn (min n rows :: row) t.get) = _
  rw [Nat.min_eq_left hn]

/-- Arrays of one shape, put one behind the other: a row is found by its array and its place
there. -/
theorem concatenate_spec {ts : List Tensor} {rows : ℕ} {row : List ℕ} (hne : ts ≠ [])
    (hshape : ∀ t ∈ ts, t.shape = rows :: row) :
    ∃ u, concatenate ts = .ok u ∧ u.shape = ts.length * rows :: row ∧
      ∀ (k i : ℕ) (idx : List ℕ) (t : Tensor), ts[k]? = some t → i < rows → InShape row idx →
        u.get ((k * rows + i) :: idx) = t.get (i :: idx) := by
  obtain ⟨t₀, rest, hts⟩ := List.exists_cons_of_ne_nil hne
  have htail : t₀.shape.tail = row := by
    rw [hshape t₀ (hts ▸ List.mem_cons_self)]
    rfl
  have hall : ∀ u ∈ ts, u.shape ≠ [] ∧ u.shape.tail = row := fun u hu => by
    rw [hshape u hu]
    exact ⟨List.cons_ne_nil _ _, rfl⟩
  have hrows : (ts.map (·.shape.headD 0)).sum = ts.length * rows := by
    rw [List.map_congr_left (g := fun _ => rows) fun t ht => by rw [hshape t ht]; rfl]
    simp
  refine ⟨⟨ts.length * rows :: row, (ts.map (·.data)).flatten, ?_⟩, ?_, rfl, ?_⟩
  · rw [sum_length_data hall, hrows]
  · have hok : concatenate ts = .ok ⟨(ts.map (·.shape.headD 0)).sum :: row,
        (ts.map (·.data)).flatten, sum_length_data hall⟩ := by
      subst hts htail
      rw [concatenate, dif_pos hall]
    rw [hok]
    congr
  · intro k i idx t hk hi hidx
    -- all buffers are of one length, so the flat buffer is cut into equal chunks
    have hlen : ∀ chunk ∈ ts.map (·.data), chunk.length = rows * row.prod := by
      intro chunk hchunk
      obtain ⟨u, hu, rfl⟩ := List.mem_map.mp hchunk
      rw [u.size_eq, hshape u hu, List.prod_cons]
    have hj : i * row.prod + offset row idx < rows * row.prod := by
      have hlt := RowMajor.offset_lt hidx
      calc i * row.prod + offset row idx < (i + 1) * row.prod := by
            rw [Nat.add_mul, Nat.one_mul]
            omega
        _ ≤ rows * row.prod := Nat.mul_le_mul_right _ hi
    have hoffset : (k * rows + i) * row.prod + offset row idx =
        k * (rows * row.prod) + (i * row.prod + offset row idx) := by
      rw [Nat.add_mul, Nat.mul_assoc, Nat.add_assoc]
    rw [get, get, hshape t (List.mem_of_getElem? hk), offset, offset, hoffset,
      List.getD_eq_getElem?_getD, List.getD_eq_getElem?_getD,
      RowMajor.getElem?_flatten_chunks hlen k hj, List.getElem?_map, hk]
    rfl

/-- A transposed tensor has the elements of the old one, with their indices permuted. -/
theorem transpose_spec {t : Tensor} {shape axes : List ℕ} (hshape : t.shape = shape)
    (haxes : axes.Perm (List.range shape.length)) :
    ∃ u, t.transpose axes = .ok u ∧ u.shape = axes.map (shape.getD · 0) ∧
      ∀ idx, InShape u.shape idx →
        u.get idx = t.get ((List.range shape.length).map fun a => idx.getD (axes.idxOf a) 0) := by
  subst hshape
  rw [transpose, if_pos haxes]
  exact ⟨_, rfl, rfl, fun idx hidx => get_ofFn hidx _⟩

/-- The first two axes exchanged. -/
theorem transpose_102 {t : Tensor} {a b c : ℕ} (hshape : t.shape = [a, b, c]) :
    ∃ u, t.transpose [1, 0, 2] = .ok u ∧ u.shape = [b, a, c] ∧
      ∀ i < b, ∀ j < a, ∀ k < c, u.get [i, j, k] = t.get [j, i, k] := by
  obtain ⟨u, hu, hushape, hget⟩ := transpose_spec hshape
    (show List.Perm [1, 0, 2] (List.range 3) by decide)
  refine ⟨u, hu, hushape, fun i hi j hj k hk => ?_⟩
  exact hget _ (hushape ▸ inShape_three hi hj hk)

/-- The last two axes exchanged. -/
theorem transpose_021 {t : Tensor} {a b c : ℕ} (hshape : t.shape = [a, b, c]) :
    ∃ u, t.transpose [0, 2, 1] = .ok u ∧ u.shape = [a, c, b] ∧
      ∀ i < a, ∀ j < c, ∀ k < b, u.get [i, j, k] = t.get [i, k, j] := by
  obtain ⟨u, hu, hushape, hget⟩ := transpose_spec hshape
    (show List.Perm [0, 2, 1] (List.range 3) by decide)
  refine ⟨u, hu, hushape, fun i hi j hj k hk => ?_⟩
  exact hget _ (hushape ▸ inShape_three hi hj hk)

/-- An array of another shape has the same elements in the same order. -/
theorem reshape_spec {t : Tensor} (shape : List ℕ) (h : t.shape.prod = shape.prod) :
    ∃ u, t.reshape shape = .ok u ∧ u.shape = shape ∧ u.data = t.data := by
  rw [reshape, dif_pos (t.size_eq.trans h)]
  exact ⟨_, rfl, rfl, rfl⟩

/-- The last axis split in two: every element is found under its two new indices. -/
theorem reshape_split {t : Tensor} (shape : List ℕ) {m n : ℕ} (h : t.shape = shape ++ [m * n]) :
    ∃ u, t.reshape (shape ++ [m, n]) = .ok u ∧ u.shape = shape ++ [m, n] ∧
      ∀ idx, idx.length = shape.length → ∀ i j,
        u.get (idx ++ [i, j]) = t.get (idx ++ [i * n + j]) := by
  have hsize : t.shape.prod = (shape ++ [m, n]).prod := by simp [h]
  obtain ⟨u, hu, hushape, hdata⟩ := reshape_spec _ hsize
  refine ⟨u, hu, hushape, fun idx hlen i j => ?_⟩
  rw [get, get, hdata, hushape, h, RowMajor.offset_split idx hlen]

/-- Broadcasting to the same shape stretches nothing. -/
theorem zipWith_stretch {shape idx : List ℕ} (h : InShape shape idx) :
    List.zipWith (fun n i => if n = 1 then 0 else i) shape idx = idx := by
  induction h with
  | nil => rfl
  | @cons i n idx shape hi _ ih =>
    rw [List.zipWith_cons_cons, ih]
    by_cases hn : n = 1
    · have hzero : i = 0 := by omega
      rw [if_pos hn, hzero]
    · rw [if_neg hn]

/-- What has the shape already is not stretched. -/
theorem broadcastTo_self (t : Tensor) : t.broadcastTo t.shape = .ok t := by
  have hself : List.Forall₂ (fun n m : ℕ => n = m ∨ n = 1) t.shape t.shape := by
    rw [List.forall₂_same]
    exact fun _ _ => .inl rfl
  rw [broadcastTo, Nat.sub_self, List.drop_zero, if_pos hself]
  congr 1
  refine ext_get rfl fun idx hidx => ?_
  rw [shape_ofFn] at hidx
  rw [get_ofFn hidx, List.drop_zero, zipWith_stretch hidx]

/-- An assignment of the right shape replaces the elements under the index and keeps the others. -/
theorem setIndex_spec {t x : Tensor} {lead shape : List ℕ} (hlead : InShape shape lead)
    (hshape : t.shape = shape ++ x.shape) :
    ∃ u, t.setIndex lead x = .ok u ∧ u.shape = t.shape ∧
      ∀ idx, InShape t.shape idx → u.get idx =
        if idx.take lead.length = lead then x.get (idx.drop lead.length) else t.get idx := by
  have hlen : lead.length = shape.length := hlead.length_eq
  have htake : t.shape.take lead.length = shape := by rw [hshape, hlen, List.take_left]
  have hdrop : t.shape.drop lead.length = x.shape := by rw [hshape, hlen, List.drop_left]
  rw [setIndex, htake, if_pos hlead, hdrop, broadcastTo_self]
  exact ⟨_, rfl, rfl, fun idx hidx => get_ofFn hidx _⟩

end Chen.Tensor
