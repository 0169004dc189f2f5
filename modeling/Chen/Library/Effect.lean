import Mathlib.Data.List.Basic
import Mathlib.Data.List.Forall2
import Mathlib.Data.List.Perm.Basic

/-!
# Stateful programs that raise, and the traces they leave

A program is an `EStateM ε σ α`: it reads and writes a state and ends in a value or an exception.
`attempt` is `try`: the exception becomes a value and the state keeps what the program did to it.

`Emits log x Φ` is a specification by trace. The state carries a list of events under `log`;
`Φ` relates the events `x` adds to the way `x` ends. The rules follow the program's text, so a
proof about a run is the program read once from top to bottom.
-/

namespace Effect

variable {ε σ α β κ : Type}

/-- How a program ended: its value, or the exception it raised. -/
def outcome : EStateM.Result ε σ α → Except ε α
  | .ok a _ => .ok a
  | .error e _ => .error e

/-- The state a program left. -/
def final : EStateM.Result ε σ α → σ
  | .ok _ s => s
  | .error _ s => s

@[simp] theorem outcome_ok (a : α) (s : σ) : outcome (.ok a s : EStateM.Result ε σ α) = .ok a := rfl

@[simp] theorem outcome_error (e : ε) (s : σ) :
    outcome (.error e s : EStateM.Result ε σ α) = .error e := rfl

@[simp] theorem final_ok (a : α) (s : σ) : final (.ok a s : EStateM.Result ε σ α) = s := rfl

@[simp] theorem final_error (e : ε) (s : σ) :
    final (.error e s : EStateM.Result ε σ α) = s := rfl

/-- A result is its outcome and its final state. -/
theorem eq_ok_of_outcome {r : EStateM.Result ε σ α} {a : α} (h : outcome r = .ok a) :
    r = .ok a (final r) := by
  cases r with
  | ok b s => simpa using h
  | error e s => simp at h

/-- A program returned, and `P` holds of its value and the state it left. -/
def Returned (P : α → σ → Prop) : EStateM.Result ε σ α → Prop
  | .ok a s => P a s
  | .error _ _ => False

instance {P : α → σ → Prop} [∀ a s, Decidable (P a s)] :
    DecidablePred (Returned P : EStateM.Result ε σ α → Prop)
  | .ok a s => inferInstanceAs (Decidable (P a s))
  | .error _ _ => inferInstanceAs (Decidable False)

/-- A program that returned has a value and a final state. -/
theorem Returned.exists {P : α → σ → Prop} {r : EStateM.Result ε σ α} (h : Returned P r) :
    ∃ a s, r = .ok a s ∧ P a s := by
  cases r with
  | ok a s => exact ⟨a, s, rfl, h⟩
  | error e s => exact h.elim

/-- `try x`: the exception becomes a value. -/
def attempt (x : EStateM ε σ α) : EStateM ε σ (Except ε α) := fun s =>
  .ok (outcome (x s)) (final (x s))

theorem pure_apply (a : α) (s : σ) : (pure a : EStateM ε σ α) s = .ok a s := rfl

theorem throw_apply (e : ε) (s : σ) : (throw e : EStateM ε σ α) s = .error e s := rfl

theorem bind_apply (x : EStateM ε σ α) (f : α → EStateM ε σ β) (s : σ) :
    (x >>= f) s = match x s with
      | .ok a s' => f a s'
      | .error e s' => .error e s' := rfl

/-- A first program that returns hands its value and its state to the second. -/
theorem bind_ok {x : EStateM ε σ α} {f : α → EStateM ε σ β} {s s' : σ} {a : α}
    (h : x s = .ok a s') : (x >>= f) s = f a s' := by
  rw [bind_apply, h]

/-- A first program that raises ends the whole. -/
theorem bind_error {x : EStateM ε σ α} {f : α → EStateM ε σ β} {s s' : σ} {e : ε}
    (h : x s = .error e s') : (x >>= f) s = .error e s' := by
  rw [bind_apply, h]

theorem get_bind_apply (f : σ → EStateM ε σ β) (s : σ) : (get >>= f) s = f s s := rfl

/-- A sequence returned exactly when both of its parts did. -/
theorem bind_eq_ok {x : EStateM ε σ α} {f : α → EStateM ε σ β} {s s' : σ} {b : β} :
    (x >>= f) s = .ok b s' ↔ ∃ a s₁, x s = .ok a s₁ ∧ f a s₁ = .ok b s' := by
  rw [bind_apply]
  cases x s <;> simp

/-- A mapped program returns if and only if the program does. -/
theorem map_eq_ok {f : α → β} {x : EStateM ε σ α} {s s' : σ} {b : β} :
    (f <$> x) s = .ok b s' ↔ ∃ a, x s = .ok a s' ∧ b = f a := by
  rw [map_eq_pure_bind, bind_eq_ok]
  constructor
  · rintro ⟨a, s₁, hx, hpure⟩
    cases hpure
    exact ⟨a, hx, rfl⟩
  · rintro ⟨a, hx, rfl⟩
    exact ⟨a, s', hx, rfl⟩

/-- A program that ends with an update under a condition. -/
theorem ite_modify_apply (c : Prop) [Decidable c] (f : σ → σ) (a : α) (s : σ) :
    (if c then (do modify f; pure a) else pure a : EStateM ε σ α) s =
      .ok a (if c then f s else s) := by
  split <;> rfl

/-- A pure end does not change the state. -/
theorem final_bind_pure (x : EStateM ε σ α) (f : α → β) (s : σ) :
    final ((x >>= fun a => pure (f a)) s) = final (x s) := by
  rw [bind_apply]
  cases x s <;> rfl

/-- A lifted result returns its value in the state it was given. -/
theorem liftExcept_eq_ok {r : Except ε α} {s s' : σ} {a : α} :
    (liftExcept r : EStateM ε σ α) s = .ok a s' ↔ r = .ok a ∧ s' = s := by
  cases r <;> simp [liftExcept, pure_apply, throw_apply, eq_comm]

theorem liftExcept_ok (a : α) : (liftExcept (.ok a : Except ε α) : EStateM ε σ α) = pure a := rfl

/-- A lifted result is how the program ends. -/
theorem outcome_liftExcept (r : Except ε α) (s : σ) :
    outcome ((liftExcept r : EStateM ε σ α) s) = r := by
  cases r <;> rfl

/-- A lifted result leaves the state as it is. -/
theorem final_liftExcept (r : Except ε α) (s : σ) :
    final ((liftExcept r : EStateM ε σ α) s) = s := by
  cases r <;> rfl

/-- How a sequence ends: as its second program does in the state after the first. -/
theorem outcome_bind (x : EStateM ε σ α) (f : α → EStateM ε σ β) (s : σ) :
    outcome ((x >>= f) s) = outcome (x s) >>= fun a => outcome (f a (final (x s))) := by
  rw [bind_apply]
  cases x s <;> rfl

/-- A pure end raises nothing of its own. -/
theorem raises_bind_pure (x : EStateM ε σ α) (f : α → β) {s : σ} :
    (∃ e, outcome ((x >>= fun a => pure (f a)) s) = .error e) ↔ ∃ e, outcome (x s) = .error e := by
  rw [bind_apply]
  cases x s with
  | ok a s' => exact iff_of_false nofun nofun
  | error e s' => exact iff_of_true ⟨e, rfl⟩ ⟨e, rfl⟩

/-! ## Programs on a part of the state -/

/-- `x` on the first part. -/
def onFirst {κ : Type} (x : EStateM ε σ α) : EStateM ε (σ × κ) α := fun s =>
  match x s.1 with
  | .ok a s' => .ok a (s', s.2)
  | .error e s' => .error e (s', s.2)

/-- `x` on the second part. -/
def onSecond {κ : Type} (x : EStateM ε κ α) : EStateM ε (σ × κ) α := fun s =>
  match x s.2 with
  | .ok a s' => .ok a (s.1, s')
  | .error e s' => .error e (s.1, s')

theorem onFirst_modify {κ : Type} (f : σ → σ) :
    (onFirst (modify f) : EStateM ε (σ × κ) Unit) = modify fun s => (f s.1, s.2) := rfl

/-- A program on the first component leaves the second one alone. -/
theorem onFirst_eq_ok {κ : Type} {x : EStateM ε σ α} {s s' : σ × κ} {a : α} :
    onFirst x s = .ok a s' ↔ x s.1 = .ok a s'.1 ∧ s'.2 = s.2 := by
  obtain ⟨s₁, s₂⟩ := s
  obtain ⟨s₁', s₂'⟩ := s'
  rw [onFirst]
  cases x s₁ with
  | ok b t => simp [eq_comm, and_assoc]
  | error e t => simp

/-- A program on the second component leaves the first one alone. -/
theorem onSecond_eq_ok {κ : Type} {x : EStateM ε κ α} {s s' : σ × κ} {a : α} :
    onSecond x s = .ok a s' ↔ x s.2 = .ok a s'.2 ∧ s'.1 = s.1 := by
  obtain ⟨s₁, s₂⟩ := s
  obtain ⟨s₁', s₂'⟩ := s'
  rw [onSecond]
  cases x s₂ with
  | ok b t => simp only [EStateM.Result.ok.injEq, Prod.mk.injEq]; tauto
  | error e t => simp

/-! ## Loops that collect results -/

/-- What every iteration establishes, a loop that returned has established of all its elements. -/
theorem forall₂_of_mapM {f : α → EStateM ε σ β} {R : α → β → Prop}
    (hstep : ∀ x s y s', f x s = .ok y s' → R x y) {xs : List α} {ys : List β} {s s' : σ}
    (h : xs.mapM f s = .ok ys s') : List.Forall₂ R xs ys := by
  induction xs generalizing ys s with
  | nil =>
    cases h
    exact .nil
  | cons x xs ih =>
    rw [List.mapM_cons] at h
    obtain ⟨y, s₁, hy, hrest⟩ := bind_eq_ok.mp h
    obtain ⟨ys', s₂, hys, hpure⟩ := bind_eq_ok.mp hrest
    cases hpure
    exact .cons (hstep x s y s₁ hy) (ih hys)

/-- Lists that are related by equal images have equal lists of images. -/
theorem map_eq_of_forall₂ {γ : Type} {f : α → γ} {g : β → γ} {xs : List α} {ys : List β}
    (h : List.Forall₂ (fun x y => g y = f x) xs ys) : ys.map g = xs.map f := by
  rw [← List.forall₂_eq_eq_eq, List.forall₂_map_left_iff, List.forall₂_map_right_iff]
  exact h.flip

/-- If it does not depend on the state whether an iteration returns, a loop returns if and only if
all of its iterations do. -/
theorem mapM_returns_iff {f : α → EStateM ε σ β} {P : α → Prop}
    (h : ∀ x s, (∃ y s', f x s = .ok y s') ↔ P x) (xs : List α) (s : σ) :
    (∃ ys s', xs.mapM f s = .ok ys s') ↔ ∀ x ∈ xs, P x := by
  induction xs generalizing s with
  | nil => exact iff_of_true ⟨[], s, rfl⟩ nofun
  | cons x xs ih =>
    simp only [List.mapM_cons, List.forall_mem_cons, bind_eq_ok]
    constructor
    · rintro ⟨_, _, y, s₁, hy, ys, s₂, hys, -⟩
      exact ⟨(h x s).mp ⟨y, s₁, hy⟩, (ih s₁).mp ⟨ys, s₂, hys⟩⟩
    · rintro ⟨hx, hrest⟩
      obtain ⟨y, s₁, hy⟩ := (h x s).mpr hx
      obtain ⟨ys, s₂, hys⟩ := (ih s₁).mpr hrest
      exact ⟨_, _, y, s₁, hy, ys, s₂, hys, rfl⟩

/-- What is made of the results of a loop may be made of each result at once. -/
theorem map_mapM {γ : Type} (g : β → γ) (f : α → EStateM ε σ β) (xs : List α) :
    List.map g <$> xs.mapM f = xs.mapM fun x => g <$> f x := by
  induction xs with
  | nil => simp
  | cons x xs ih => simp [List.mapM_cons, ← ih]

/-- A sequence of results is a value if and only if both parts are. -/
theorem except_bind_eq_ok {x : Except ε α} {f : α → Except ε β} {b : β} :
    (x >>= f) = .ok b ↔ ∃ a, x = .ok a ∧ f a = .ok b := by
  cases x with
  | ok a => exact ⟨fun h => ⟨a, rfl, h⟩, fun ⟨a', h, h'⟩ => Except.ok.inj h ▸ h'⟩
  | error e => exact ⟨nofun, nofun⟩

/-- A list of results is a list of values if and only if each of them is one. -/
theorem except_mapM_eq_ok {f : α → Except ε β} {xs : List α} {ys : List β} :
    xs.mapM f = .ok ys ↔ List.Forall₂ (fun x y => f x = .ok y) xs ys := by
  induction xs generalizing ys with
  | nil =>
    rw [List.mapM_nil, List.forall₂_nil_left_iff]
    exact ⟨fun h => (Except.ok.inj h).symm, fun h => h ▸ rfl⟩
  | cons x xs ih =>
    simp only [List.mapM_cons, except_bind_eq_ok, ih]
    constructor
    · rintro ⟨y, hy, ys', hys, hpure⟩
      cases hpure
      exact .cons hy hys
    · rintro (_ | ⟨hy, hys⟩)
      exact ⟨_, hy, _, hys, rfl⟩

/-- A loop that returned has collected what its iterations returned. -/
theorem except_mem_mapM_iff {f : α → Except ε β} {xs : List α} {ys : List β}
    (h : xs.mapM f = .ok ys) {y : β} : y ∈ ys ↔ ∃ x ∈ xs, f x = .ok y := by
  induction except_mapM_eq_ok.mp h with
  | nil => simp
  | @cons x y' xs ys hx hall ih => simp [ih (except_mapM_eq_ok.mpr hall), hx, eq_comm]

/-- What each iteration of a loop gives, the loop gives side by side. -/
theorem except_mapM_forall₂ {f : α → Except ε β} {R : α → β → Prop} {xs : List α}
    (h : ∀ x ∈ xs, ∃ y, f x = .ok y ∧ R x y) :
    ∃ ys, xs.mapM f = .ok ys ∧ List.Forall₂ R xs ys := by
  induction xs with
  | nil => exact ⟨[], rfl, .nil⟩
  | cons x xs ih =>
    obtain ⟨y, hy, hR⟩ := h x (List.mem_cons_self ..)
    obtain ⟨ys, hys, hall⟩ := ih fun x' hx' => h x' (List.mem_cons_of_mem _ hx')
    exact ⟨y :: ys, by rw [List.mapM_cons, hy, hys]; rfl, .cons hR hall⟩

/-- A loop whose iterations all return collects what they return. -/
theorem except_mapM_returns {f : α → Except ε β} {xs : List α} (h : ∀ x ∈ xs, ∃ y, f x = .ok y) :
    ∃ ys, xs.mapM f = .ok ys ∧ ∀ y, y ∈ ys ↔ ∃ x ∈ xs, f x = .ok y := by
  obtain ⟨ys, hys, -⟩ := except_mapM_forall₂ (R := fun _ _ => True) fun x hx =>
    (h x hx).imp fun _ hy => ⟨hy, trivial⟩
  exact ⟨ys, hys, fun _ => except_mem_mapM_iff hys⟩

/-- A loop over the numbers below `n` puts what its iterations give in their places. -/
theorem except_mapM_range {f : ℕ → Except ε β} {R : ℕ → β → Prop} {n : ℕ}
    (h : ∀ i < n, ∃ y, f i = .ok y ∧ R i y) :
    ∃ ys, (List.range n).mapM f = .ok ys ∧ ys.length = n ∧
      ∀ i < n, ∃ y, ys[i]? = some y ∧ R i y := by
  obtain ⟨ys, hys, hall⟩ := except_mapM_forall₂ fun i hi => h i (List.mem_range.mp hi)
  obtain ⟨hlen, hget⟩ := List.forall₂_iff_get.mp hall
  rw [List.length_range] at hlen
  refine ⟨ys, hys, hlen.symm, fun i hi => ?_⟩
  have hR := hget i (by simpa using hi) (hlen ▸ hi)
  rw [List.get_eq_getElem, List.getElem_range] at hR
  exact ⟨_, List.getElem?_eq_getElem (hlen ▸ hi), hR⟩

/-- A loop over the same elements in another order collects the same. -/
theorem except_mapM_perm {f : α → Except ε β} {xs xs' : List α} (h : xs'.Perm xs) {ys : List β}
    (hys : xs.mapM f = .ok ys) : ∃ ys', xs'.mapM f = .ok ys' ∧ ys'.Perm ys := by
  obtain ⟨ys', hall, hperm⟩ := List.perm_comp_forall₂ h (except_mapM_eq_ok.mp hys)
  exact ⟨ys', except_mapM_eq_ok.mpr hall, hperm⟩

/-- Every iteration of a loop that returned has returned. -/
theorem except_returns_of_mapM {f : α → Except ε β} {xs : List α} {ys : List β}
    (h : xs.mapM f = .ok ys) : ∀ x ∈ xs, ∃ y, f x = .ok y := by
  induction except_mapM_eq_ok.mp h with
  | nil => exact nofun
  | cons hx hall ih =>
    exact List.forall_mem_cons.mpr ⟨⟨_, hx⟩, ih (except_mapM_eq_ok.mpr hall)⟩

/-- What both parts of a program raise at most, the program raises at most. -/
theorem except_bind_raises {P : ε → Prop} {x : Except ε α} {f : α → Except ε β}
    (hx : ∀ e, x = .error e → P e) (hf : ∀ a e, f a = .error e → P e) :
    ∀ e, (x >>= f) = .error e → P e := by
  intro e h
  cases x with
  | error e' =>
    cases h
    exact hx e rfl
  | ok a => exact hf a e h

/-- A list of results is the first exception among them. -/
theorem except_mapM_cons_eq_error {f : α → Except ε β} {x : α} {xs : List α} {e : ε} :
    (x :: xs).mapM f = .error e ↔ f x = .error e ∨ (∃ b, f x = .ok b) ∧ xs.mapM f = .error e := by
  rw [List.mapM_cons]
  cases f x with
  | error e' =>
    show Except.error e' = .error e ↔ _
    simp
  | ok b =>
    show (xs.mapM f >>= fun ys => pure (b :: ys)) = .error e ↔ _
    cases xs.mapM f with
    | error e' =>
      show Except.error e' = .error e ↔ _
      simp
    | ok ys =>
      show Except.ok (b :: ys) = .error e ↔ _
      simp

/-- A loop that raised has gone through the elements in front of the one that raised. -/
theorem except_mapM_eq_error {f : α → Except ε β} {xs : List α} {e : ε} :
    xs.mapM f = .error e ↔ ∃ pre x post, xs = pre ++ x :: post ∧
      (∀ y ∈ pre, ∃ b, f y = .ok b) ∧ f x = .error e := by
  induction xs with
  | nil => simp [pure, Except.pure]
  | cons x xs ih =>
    rw [except_mapM_cons_eq_error, ih]
    constructor
    · rintro (hx | ⟨hx, pre, y, post, rfl, hpre, hy⟩)
      · exact ⟨[], x, xs, rfl, nofun, hx⟩
      · exact ⟨x :: pre, y, post, rfl, List.forall_mem_cons.mpr ⟨hx, hpre⟩, hy⟩
    · rintro ⟨pre, y, post, hsplit, hpre, hy⟩
      cases pre with
      | nil =>
        cases hsplit
        exact .inl hy
      | cons z pre =>
        cases hsplit
        obtain ⟨hz, hpre⟩ := List.forall_mem_cons.mp hpre
        exact .inr ⟨hz, pre, y, post, rfl, hpre, hy⟩

/-! ## Programs that never raise -/

/-- `x` returns from every state. -/
def Total (x : EStateM ε σ α) : Prop := ∀ s, ∃ a s', x s = .ok a s'

namespace Total

protected theorem pure (a : α) : Total (pure a : EStateM ε σ α) := fun s => ⟨a, s, rfl⟩

protected theorem get : Total (get : EStateM ε σ σ) := fun s => ⟨s, s, rfl⟩

/-- A sequence always returns if both of its programs do. -/
protected theorem bind {x : EStateM ε σ α} {f : α → EStateM ε σ β} (hx : Total x)
    (hf : ∀ a, Total (f a)) : Total (x >>= f) := by
  intro s
  obtain ⟨a, s', hxs⟩ := hx s
  rw [bind_ok hxs]
  exact hf a s'

/-- A `try` always returns. -/
protected theorem attempt (x : EStateM ε σ α) : Total (attempt x) := fun s =>
  ⟨outcome (x s), final (x s), rfl⟩

/-- A loop always returns if each of its iterations does. -/
protected theorem foldlM {f : β → α → EStateM ε σ β} :
    ∀ {xs : List α} {b : β}, (∀ x ∈ xs, ∀ b, Total (f b x)) → Total (xs.foldlM f b)
  | [], b, _ => Total.pure b
  | x :: xs, b, h => by
    rw [List.foldlM_cons]
    exact (h x (by simp) b).bind fun b' => Total.foldlM fun y hy => h y (by simp [hy])

end Total

/-! ## Total correctness on a view of the state -/

section View

variable {τ : Type} {view : σ → τ}

/-- From every state that is seen as `v`, `x` returns a value and leaves a state seen as `v'`, with
`Φ a v'`. -/
def Gives (view : σ → τ) (x : EStateM ε σ α) (v : τ) (Φ : α → τ → Prop) : Prop :=
  ∀ s, view s = v → ∃ a s', x s = .ok a s' ∧ Φ a (view s')

namespace Gives

/-- A weaker postcondition. -/
theorem mono {x : EStateM ε σ α} {v : τ} {Φ Ψ : α → τ → Prop} (h : Gives view x v Φ)
    (himp : ∀ a v', Φ a v' → Ψ a v') : Gives view x v Ψ := by
  intro s hs
  obtain ⟨a, s', hxs, hΦ⟩ := h s hs
  exact ⟨a, s', hxs, himp _ _ hΦ⟩

/-- `pure` gives its value. -/
protected theorem pure {a : α} {v : τ} {Φ : α → τ → Prop} (h : Φ a v) :
    Gives view (pure a : EStateM ε σ α) v Φ := by
  rintro s rfl
  exact ⟨a, s, rfl, h⟩

/-- Sequencing, from the view that the first program leaves. -/
protected theorem bind {x : EStateM ε σ α} {f : α → EStateM ε σ β} {v : τ} {Φ : α → τ → Prop}
    {Ψ : β → τ → Prop} (hx : Gives view x v Φ)
    (hf : ∀ a v', Φ a v' → Gives view (f a) v' Ψ) : Gives view (x >>= f) v Ψ := by
  intro s hs
  obtain ⟨a, s', hxs, hΦ⟩ := hx s hs
  rw [bind_ok hxs]
  exact hf a _ hΦ s' rfl

end Gives

end View

/-! ## Programs that leave a part of the state alone -/

section Preserves

variable {τ : Type} {view : σ → τ}

/-- However `x` ends, the state looks the same through `view`. -/
def Preserves (view : σ → τ) (x : EStateM ε σ α) : Prop := ∀ s, view (final (x s)) = view s

namespace Preserves

protected theorem pure (a : α) : Preserves view (pure a : EStateM ε σ α) := fun _ => rfl

protected theorem throw (e : ε) : Preserves view (throw e : EStateM ε σ α) := fun _ => rfl

protected theorem get : Preserves view (get : EStateM ε σ σ) := fun _ => rfl

/-- A `try` changes what its program changes. -/
protected theorem attempt {x : EStateM ε σ α} (hx : Preserves view x) :
    Preserves view (attempt x) := hx

/-- A sequence changes nothing that is seen if neither program does. -/
protected theorem bind {x : EStateM ε σ α} {f : α → EStateM ε σ β} (hx : Preserves view x)
    (hf : ∀ a, Preserves view (f a)) : Preserves view (x >>= f) := by
  intro s
  have hxs := hx s
  rw [bind_apply]
  cases h : x s with
  | ok a s' =>
    rw [h] at hxs
    exact (hf a s').trans hxs
  | error e s' =>
    rw [h] at hxs
    exact hxs

/-- After a program that returned, the view is as it was. -/
theorem of_eq_ok {x : EStateM ε σ α} (hx : Preserves view x) {s s' : σ} {a : α}
    (h : x s = .ok a s') : view s' = view s := by
  have hxs := hx s
  rwa [h] at hxs

end Preserves

end Preserves

/-! ## Specification by trace -/

variable {log : σ → List κ}

/-- From any state, `x` adds events `es` to the trace and ends in `r` with `Φ es r`. -/
def Emits (log : σ → List κ) (x : EStateM ε σ α) (Φ : List κ → Except ε α → Prop) : Prop :=
  ∀ s, ∃ es, log (final (x s)) = log s ++ es ∧ Φ es (outcome (x s))

/-- A postcondition in two parts: `I` when the program returns, `E` when it raises. -/
def Ends (I : List κ → α → Prop) (E : List κ → ε → Prop) (es : List κ) : Except ε α → Prop
  | .ok a => I es a
  | .error e => E es e

namespace Emits

/-- A weaker postcondition. -/
theorem mono {x : EStateM ε σ α} {Φ Ψ : List κ → Except ε α → Prop} (h : Emits log x Φ)
    (himp : ∀ es r, Φ es r → Ψ es r) : Emits log x Ψ := by
  intro s
  obtain ⟨es, hlog, hΦ⟩ := h s
  exact ⟨es, hlog, himp es _ hΦ⟩

/-- `pure` emits nothing. -/
protected theorem pure {a : α} {Φ : List κ → Except ε α → Prop} (h : Φ [] (.ok a)) :
    Emits log (pure a : EStateM ε σ α) Φ :=
  fun _ => ⟨[], by simp [pure_apply], h⟩

/-- `throw` emits nothing. -/
protected theorem throw {e : ε} {Φ : List κ → Except ε α → Prop} (h : Φ [] (.error e)) :
    Emits log (throw e : EStateM ε σ α) Φ :=
  fun _ => ⟨[], by simp [throw_apply], h⟩

/-- A lifted result emits nothing. -/
protected theorem liftExcept {r : Except ε α} {Φ : List κ → Except ε α → Prop} (h : Φ [] r) :
    Emits log (liftExcept r : EStateM ε σ α) Φ := by
  cases r with
  | ok a => exact Emits.pure h
  | error e => exact Emits.throw h

/-- A program that never touches the trace. -/
theorem silent {x : EStateM ε σ α} {Φ : List κ → Except ε α → Prop}
    (hlog : ∀ s, log (final (x s)) = log s) (h : ∀ s, Φ [] (outcome (x s))) : Emits log x Φ :=
  fun s => ⟨[], by simpa using hlog s, h s⟩

/-- Sequencing: the second program continues the events of the first. -/
protected theorem bind {x : EStateM ε σ α} {f : α → EStateM ε σ β} {Φ : List κ → Except ε α → Prop}
    {Ψ : List κ → Except ε β → Prop} (hx : Emits log x Φ)
    (hf : ∀ es a, Φ es (.ok a) → Emits log (f a) fun es' r => Ψ (es ++ es') r)
    (herr : ∀ es e, Φ es (.error e) → Ψ es (.error e)) : Emits log (x >>= f) Ψ := by
  intro s
  obtain ⟨es, hlog, hΦ⟩ := hx s
  cases hxs : x s with
  | ok a s' =>
    rw [hxs] at hlog hΦ
    obtain ⟨es', hlog', hΨ⟩ := hf es a hΦ s'
    rw [bind_ok hxs]
    exact ⟨es ++ es', by rw [hlog', ← List.append_assoc]; exact congrArg (· ++ es') hlog, hΨ⟩
  | error e s' =>
    rw [hxs] at hlog hΦ
    rw [bind_error hxs]
    exact ⟨es, hlog, herr es e hΦ⟩

/-- A property of single events, kept by the first program and by the second one only if `Q`: the
whole keeps it when the first program raises, or if `Q`. -/
theorem bind_iff {x : EStateM ε σ α} {f : α → EStateM ε σ β} {P : List κ → Prop} {Q : Prop}
    {K : α → Prop} (hP : ∀ es es', P (es ++ es') ↔ P es ∧ P es')
    (hx : Emits log x fun es r => P es ∧ ∀ a, r = .ok a → K a)
    (hf : ∀ a, K a → Emits log (f a) fun es _ => P es ↔ Q) {s : σ} (hs : log s = []) :
    P (log (final ((x >>= f) s))) ↔ (∃ e, outcome (x s) = .error e) ∨ Q := by
  obtain ⟨es, hlog, hes, hK⟩ := hx s
  rw [hs, List.nil_append] at hlog
  cases hxs : x s with
  | ok a s' =>
    rw [hxs] at hlog hK
    obtain ⟨es', hlog', hiff⟩ := hf a (hK a rfl) s'
    have hfirst : ¬ ∃ e, outcome (.ok a s' : EStateM.Result ε σ α) = .error e := by
      rintro ⟨e, he⟩
      cases he
    rw [bind_ok hxs, hlog', show log s' = es from hlog, hP, hiff]
    simp only [hes, true_and, hfirst, false_or]
  | error e s' =>
    rw [hxs] at hlog
    rw [bind_error hxs, show log (final (.error e s' : EStateM.Result ε σ β)) = es from hlog]
    exact iff_of_true hes (.inl ⟨e, rfl⟩)

/-- Sequencing after a program that adds no events and does not raise. -/
theorem bind_silent {x : EStateM ε σ α} {f : α → EStateM ε σ β} {Ψ : List κ → Except ε β → Prop}
    {P : α → Prop} (hx : Emits log x fun es r => es = [] ∧ ∃ a, r = .ok a ∧ P a)
    (hf : ∀ a, P a → Emits log (f a) Ψ) : Emits log (x >>= f) Ψ := by
  refine hx.bind ?_ ?_
  · rintro es a ⟨rfl, b, hb, hP⟩
    cases hb
    simpa using hf a hP
  · rintro es e ⟨-, b, hb, -⟩
    cases hb

/-- `try x` ends in a value, which is how `x` ended. -/
protected theorem attempt {x : EStateM ε σ α} {Φ : List κ → Except ε (Except ε α) → Prop}
    (hx : Emits log x fun es r => Φ es (.ok r)) : Emits log (attempt x) Φ :=
  hx

/-- The loop rule. `I done es b` relates the elements consumed and the events so far to the
accumulator; `E` relates the events to an exception. -/
protected theorem foldlM {f : β → α → EStateM ε σ β} {I : List α → List κ → β → Prop}
    {E : List κ → ε → Prop} {xs : List α} {b : β}
    (hstep : ∀ done x rest, done ++ x :: rest = xs → ∀ es b, I done es b →
      Emits log (f b x) fun es' => Ends (I (done ++ [x])) E (es ++ es'))
    (h : I [] [] b) : Emits log (xs.foldlM f b) (Ends (I xs) E) := by
  have key : ∀ ys done es b, done ++ ys = xs → I done es b →
      Emits log (ys.foldlM f b) fun es' => Ends (I xs) E (es ++ es') := by
    intro ys
    induction ys with
    | nil =>
      intro done es b hxs hI
      rw [List.append_nil] at hxs
      subst hxs
      exact Emits.pure (by simpa [Ends] using hI)
    | cons y ys ih =>
      intro done es b hxs hI
      rw [List.foldlM_cons]
      refine (hstep done y ys hxs es b hI).bind ?_ (fun _ _ h => h)
      intro es₁ b₁ hI₁
      refine (ih (done ++ [y]) (es ++ es₁) b₁ (by simpa using hxs) hI₁).mono ?_
      intro es₂ r hr
      simpa only [List.append_assoc] using hr
  exact (key xs [] [] b rfl h).mono fun es r hr => by simpa using hr

/-- What holds of the events and the end of a run started on an empty trace. -/
theorem run {x : EStateM ε σ α} {Φ : List κ → Except ε α → Prop} (h : Emits log x Φ) {s : σ}
    (hs : log s = []) : Φ (log (final (x s))) (outcome (x s)) := by
  obtain ⟨es, hlog, hΦ⟩ := h s
  rw [hs, List.nil_append] at hlog
  rwa [hlog]

end Emits

end Effect
