import Mathlib.Data.List.Basic
import Mathlib.Data.List.Forall2
import Mathlib.Data.List.TakeDrop

/-!
# Framed data

A framing tells how long the first frame of some data is, if the whole of it is there. Data is a
series of frames and a rest in which no frame is complete.
-/

/-- How long the first frame is. This depends on the frame alone, not on what follows it. -/
structure Framing (α : Type) where
  size : List α → Option ℕ
  size_pos : ∀ {data n}, size data = some n → 0 < n
  size_le : ∀ {data n}, size data = some n → n ≤ data.length
  size_of_prefix : ∀ {data data' n}, size data = some n → data.take n <+: data' →
    size data' = some n

namespace Framing

variable {α : Type} (F : Framing α)

/-- The frames of some data. -/
def frames (data : List α) : List (List α) :=
  match _hsize : F.size data with
  | none => []
  | some n => data.take n :: frames (data.drop n)
termination_by data.length
decreasing_by
  have hpos := F.size_pos ‹_›
  have hle := F.size_le ‹_›
  rw [List.length_drop]
  omega

/-- What is left behind the last frame. -/
def leftover (data : List α) : List α :=
  match _hsize : F.size data with
  | none => data
  | some n => leftover (data.drop n)
termination_by data.length
decreasing_by
  have hpos := F.size_pos ‹_›
  have hle := F.size_le ‹_›
  rw [List.length_drop]
  omega

/-- The data is one frame. -/
def IsFrame (data : List α) : Prop := F.size data = some data.length

variable {F} {data : List α} {n : ℕ}

/-- Where no frame begins, none is read. -/
theorem frames_of_none (h : F.size data = none) : F.frames data = [] := by
  rw [frames]
  split
  case h_1 => rfl
  case h_2 h' => cases h.symm.trans h'

/-- The frame at the front is read first. -/
theorem frames_of_some (h : F.size data = some n) :
    F.frames data = data.take n :: F.frames (data.drop n) := by
  rw [frames]
  split
  case h_1 h' => cases h.symm.trans h'
  case h_2 h' =>
    cases h.symm.trans h'
    rfl

/-- Where no frame begins, everything is left over. -/
theorem leftover_of_none (h : F.size data = none) : F.leftover data = data := by
  rw [leftover]
  split
  case h_1 => rfl
  case h_2 h' => cases h.symm.trans h'

/-- What is left over lies behind the frame at the front. -/
theorem leftover_of_some (h : F.size data = some n) :
    F.leftover data = F.leftover (data.drop n) := by
  rw [leftover]
  split
  case h_1 h' => cases h.symm.trans h'
  case h_2 h' =>
    cases h.symm.trans h'
    rfl

/-- The piece that is cut off the front is a frame. -/
theorem isFrame_take (h : F.size data = some n) : F.IsFrame (data.take n) := by
  rw [IsFrame, List.length_take, Nat.min_eq_left (F.size_le h)]
  exact F.size_of_prefix h List.prefix_rfl

/-- Frames and rest make up the data. -/
theorem flatten_frames_append_leftover (data : List α) :
    (F.frames data).flatten ++ F.leftover data = data := by
  induction data using frames.induct F with
  | case1 data h => rw [frames_of_none h, leftover_of_none h, List.flatten_nil, List.nil_append]
  | case2 data n h ih =>
    rw [frames_of_some h, leftover_of_some h, List.flatten_cons, List.append_assoc, ih,
      List.take_append_drop]

/-- All that is read are frames. -/
theorem isFrame_of_mem_frames : ∀ frame ∈ F.frames data, F.IsFrame frame := by
  induction data using frames.induct F with
  | case1 data h => rw [frames_of_none h]; exact nofun
  | case2 data n h ih =>
    rw [frames_of_some h]
    exact List.forall_mem_cons.mpr ⟨isFrame_take h, ih⟩

/-- Parts with the lengths of some frames make up the frames and a rest only if they are these
frames and there is no rest. -/
theorem flatten_eq_append_iff {fs fs' : List (List α)} {rest : List α}
    (h : List.Forall₂ (fun frame frame' => frame'.length = frame.length) fs fs') :
    fs'.flatten = fs.flatten ++ rest ↔ rest = [] ∧ fs' = fs := by
  induction h with
  | nil => simp [eq_comm]
  | @cons frame frame' fs fs' hlen _ ih =>
    rw [List.flatten_cons, List.flatten_cons, List.append_assoc, List.cons.injEq]
    constructor
    · intro heq
      obtain ⟨hframe, hrest⟩ := List.append_inj heq hlen
      obtain ⟨hnil, hfs⟩ := ih.mp hrest
      exact ⟨hnil, hframe, hfs⟩
    · rintro ⟨hnil, hframe, hfs⟩
      rw [hframe, ih.mpr ⟨hnil, hfs⟩]

end Framing
