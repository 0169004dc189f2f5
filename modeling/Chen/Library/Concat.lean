import Mathlib.Data.List.Basic

/-!
# Concatenations of rearranged parts

The parts of a list may be put together in any order exactly when every two of them commute.
-/

namespace Chen.Concat

variable {ι α : Type} (part : ι → List α)

/-- Every two parts commute. -/
def Commute (xs : List ι) : Prop := ∀ x ∈ xs, ∀ y ∈ xs, part x ++ part y = part y ++ part x

variable {part} {xs ys : List ι}

/-- Parts that commute in one order of the list commute in every other. -/
theorem Commute.of_perm (h : Commute part xs) (hp : ys.Perm xs) : Commute part ys :=
  fun x hx y hy => h x (hp.mem_iff.mp hx) y (hp.mem_iff.mp hy)

/-- Commuting parts may be rearranged. -/
theorem Commute.flatMap_eq (hp : ys.Perm xs) (h : Commute part xs) :
    ys.flatMap part = xs.flatMap part := by
  induction hp with
  | nil => rfl
  | cons x _ ih =>
    have hrest := ih fun y hy z hz => h y (List.mem_cons_of_mem x hy) z (List.mem_cons_of_mem x hz)
    rw [List.flatMap_cons, List.flatMap_cons, hrest]
  | swap x y rest =>
    have hswap := h x (by simp) y (by simp)
    simp only [List.flatMap_cons, ← List.append_assoc, hswap]
  | trans hp₁ hp₂ ih₁ ih₂ =>
    exact (ih₁ (h.of_perm hp₂)).trans (ih₂ h)

/-- Every order of a list gives one concatenation if and only if the parts commute. -/
theorem flatMap_eq_iff : (∀ ys : List ι, ys.Perm xs → ys.flatMap part = xs.flatMap part) ↔
    Commute part xs := by
  classical
  refine ⟨fun hall x hx y hy => ?_, fun h ys hp => h.flatMap_eq hp⟩
  by_cases hxy : y = x
  · rw [hxy]
  · -- put the two first, in both orders
    have hy' : y ∈ xs.erase x := (List.mem_erase_of_ne hxy).mpr hy
    have hperm : (x :: y :: (xs.erase x).erase y).Perm xs :=
      ((List.perm_cons_erase hy').symm.cons x).trans (List.perm_cons_erase hx).symm
    have hswap : (y :: x :: (xs.erase x).erase y).Perm xs := (List.Perm.swap ..).trans hperm
    have heq := (hall _ hperm).trans (hall _ hswap).symm
    simp only [List.flatMap_cons, ← List.append_assoc] at heq
    exact List.append_cancel_right heq

end Chen.Concat
