import Chen.Python.Float

/-!
# NumPy

One-dimensional `float32` arrays are lists. Their arithmetic is a parameter; the checks of shapes
are not.
-/

namespace Chen

/-- The array operations that the code uses. -/
class Numpy (R : Type) where
  /-- A `float` stored in a `float32` array. -/
  float32 : R → R
  /-- `float((v ** 2).sum())`. -/
  sumSq : List R → R
  /-- `v / norm`. -/
  divide : List R → R → List R
  /-- `vs.mean(axis=0)`, on the rows of a matrix. -/
  mean : List (List R) → List R
  /-- `float(np.dot(v, w))`, on arrays of the same length. -/
  dotSame : List R → List R → R

namespace Numpy

variable {R : Type} [Numpy R]

/-- `np.stack(vs)`: the rows must have the same length. -/
def stack (vs : List (List R)) : Except Exn (List (List R)) :=
  match vs with
  | [] => .error (.value "need at least one array to stack")
  | v :: rest =>
    if rest.all (·.length = v.length) then .ok (v :: rest)
    else .error (.value "all input arrays must have the same shape")

/-- `float(np.dot(v, w))`. -/
def dot (v w : List R) : Except Exn R :=
  if v.length = w.length then .ok (dotSame v w)
  else .error (.value
    s!"shapes ({v.length},) and ({w.length},) not aligned: {v.length} (dim 0) != {w.length} (dim 0)")

end Numpy

/-- Exact arithmetic on the rationals. -/
@[reducible] def Numpy.rat : Numpy ℚ where
  float32 := id
  sumSq v := (v.map (· ^ 2)).sum
  divide v norm := v.map (· / norm)
  mean vs :=
    match vs with
    | [] => []
    | v :: _ => (List.range v.length).map fun i => (vs.map (·.getD i 0)).sum / vs.length
  dotSame v w := (List.zipWith (· * ·) v w).sum

end Chen
