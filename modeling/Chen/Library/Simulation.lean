import Chen.Library.Ensures

/-!
# Two programs run side by side

`Simulates R Q x y`: from states related by `R`, the programs `x` and `y` end in the same way, in
states again related by `R`. They return values related by `Q`, or raise the same exception. The
rules take the two programs apart at the same time, one step of each.
-/

namespace Effect

variable {ε σ τ α β α' β' γ : Type}

/-- Two outcomes agree: related values, or one exception. -/
inductive Agree (Q : α → β → Prop) : Except ε α → Except ε β → Prop
  | ok {a : α} {b : β} : Q a b → Agree Q (.ok a) (.ok b)
  | error (e : ε) : Agree Q (.error e) (.error e)

/-- A result agrees with itself. -/
theorem Agree.refl (r : Except ε α) : Agree (· = ·) r r := by
  cases r with
  | ok a => exact .ok rfl
  | error e => exact .error e

/-- Results that agree on equality are equal. -/
theorem Agree.eq {r r' : Except ε α} (h : Agree (· = ·) r r') : r = r' := by
  cases h with
  | ok heq => rw [heq]
  | error e => rfl

/-- A result that agrees with a value is a value. -/
theorem Agree.ok_left {Q : α → β → Prop} {a : α} {r : Except ε β}
    (h : Agree Q (.ok a) r) : ∃ b, r = .ok b ∧ Q a b := by
  cases h with
  | ok hQ => exact ⟨_, rfl, hQ⟩

/-- A weaker relation of the values. -/
theorem Agree.mono {Q Q' : α → β → Prop} {r : Except ε α} {r' : Except ε β}
    (h : Agree Q r r') (himp : ∀ a b, Q a b → Q' a b) : Agree Q' r r' := by
  cases h with
  | ok hQ => exact .ok (himp _ _ hQ)
  | error e => exact .error e

/-- From `R`-related states, `x` and `y` agree and leave `R`-related states. -/
def Simulates (R : σ → τ → Prop) (Q : α → β → Prop) (x : EStateM ε σ α) (y : EStateM ε τ β) :
    Prop :=
  ∀ s t, R s t → R (final (x s)) (final (y t)) ∧ Agree Q (outcome (x s)) (outcome (y t))

namespace Simulates

variable {R : σ → τ → Prop}

/-- A weaker relation of the values. -/
theorem mono {Q Q' : α → β → Prop} {x : EStateM ε σ α} {y : EStateM ε τ β}
    (h : Simulates R Q x y) (himp : ∀ a b, Q a b → Q' a b) : Simulates R Q' x y :=
  fun s t hst => ⟨(h s t hst).1, (h s t hst).2.mono himp⟩

/-- Related values are related programs. -/
protected theorem pure {Q : α → β → Prop} {a : α} {b : β} (h : Q a b) :
    Simulates R Q (pure a : EStateM ε σ α) (pure b) :=
  fun _ _ hst => ⟨hst, .ok h⟩

/-- The same exception on both sides. -/
protected theorem throw {Q : α → β → Prop} (e : ε) :
    Simulates R Q (throw e : EStateM ε σ α) (throw e) :=
  fun _ _ hst => ⟨hst, .error e⟩

/-- Results that agree are related programs. -/
protected theorem liftExcept {Q : α → β → Prop} {r : Except ε α} {r' : Except ε β}
    (h : Agree Q r r') : Simulates R Q (liftExcept r : EStateM ε σ α) (liftExcept r') := by
  cases h with
  | ok hQ => exact Simulates.pure hQ
  | error e => exact Simulates.throw e

/-- If the first programs agree from one pair of states, so do the programs followed by related
ones. -/
protected theorem bind_apply {Q : α → β → Prop} {Q' : α' → β' → Prop} {x : EStateM ε σ α}
    {y : EStateM ε τ β} {f : α → EStateM ε σ α'} {g : β → EStateM ε τ β'} {s : σ} {t : τ}
    (hxy : R (final (x s)) (final (y t)) ∧ Agree Q (outcome (x s)) (outcome (y t)))
    (hfg : ∀ a b, Q a b → Simulates R Q' (f a) (g b)) :
    R (final ((x >>= f) s)) (final ((y >>= g) t)) ∧
      Agree Q' (outcome ((x >>= f) s)) (outcome ((y >>= g) t)) := by
  obtain ⟨hR, hA⟩ := hxy
  cases hxs : x s with
  | ok a s' =>
    cases hyt : y t with
    | ok b t' =>
      rw [hxs, hyt] at hR hA
      rw [bind_ok hxs, bind_ok hyt]
      cases hA with
      | ok hQ => exact hfg a b hQ s' t' hR
    | error e t' =>
      rw [hxs, hyt] at hA
      cases hA
  | error e s' =>
    cases hyt : y t with
    | ok b t' =>
      rw [hxs, hyt] at hA
      cases hA
    | error e' t' =>
      rw [hxs, hyt] at hR hA
      rw [bind_error hxs, bind_error hyt]
      cases hA with
      | error => exact ⟨hR, .error e⟩

/-- Sequencing: related values are handed to related programs. -/
protected theorem bind {Q : α → β → Prop} {Q' : α' → β' → Prop} {x : EStateM ε σ α}
    {y : EStateM ε τ β} {f : α → EStateM ε σ α'} {g : β → EStateM ε τ β'}
    (hxy : Simulates R Q x y) (hfg : ∀ a b, Q a b → Simulates R Q' (f a) (g b)) :
    Simulates R Q' (x >>= f) (y >>= g) :=
  fun s t hst => Simulates.bind_apply (hxy s t hst) hfg

/-- Related states are related values. -/
protected theorem get : Simulates R R (get : EStateM ε σ σ) get := fun _ _ hst => ⟨hst, .ok hst⟩

/-- Related programs in a `try` give results that agree. -/
protected theorem attempt {Q : α → β → Prop} {x : EStateM ε σ α} {y : EStateM ε τ β}
    (h : Simulates R Q x y) : Simulates R (Agree Q) (attempt x) (attempt y) :=
  fun s t hst => ⟨(h s t hst).1, .ok (h s t hst).2⟩

/-- The loop rule: related steps over one list keep related accumulators related. -/
protected theorem foldlM {Q : α → β → Prop} {f : α → γ → EStateM ε σ α}
    {g : β → γ → EStateM ε τ β} : ∀ {xs : List γ} {a : α} {b : β},
      (∀ x ∈ xs, ∀ a b, Q a b → Simulates R Q (f a x) (g b x)) → Q a b →
      Simulates R Q (xs.foldlM f a) (xs.foldlM g b)
  | [], a, b, _, h => Simulates.pure h
  | x :: xs, a, b, hstep, h => by
    rw [List.foldlM_cons, List.foldlM_cons]
    refine (hstep x (by simp) a b h).bind fun a' b' h' => ?_
    exact Simulates.foldlM (fun y hy => hstep y (by simp [hy])) h'

/-- The loop rule for an enumerated list whose first step differs from the others. -/
protected theorem foldlM_zipIdx {Q : α → β → Prop} {f : α → γ × ℕ → EStateM ε σ α}
    {g : β → γ × ℕ → EStateM ε τ β} {xs : List γ} {a : α} {b : β}
    (h : xs = [] → Q a b)
    (hfirst : ∀ x ∈ xs, Simulates R Q (f a (x, 0)) (g b (x, 0)))
    (hrest : ∀ x ∈ xs, ∀ i, i ≠ 0 → ∀ a b, Q a b → Simulates R Q (f a (x, i)) (g b (x, i))) :
    Simulates R Q (xs.zipIdx.foldlM f a) (xs.zipIdx.foldlM g b) := by
  cases xs with
  | nil => exact Simulates.pure (h rfl)
  | cons x xs =>
    rw [List.zipIdx_cons, List.foldlM_cons, List.foldlM_cons]
    refine (hfirst x (by simp)).bind fun a' b' h' => Simulates.foldlM ?_ h'
    rintro ⟨y, i⟩ hy c d hcd
    obtain ⟨hle, -, hget⟩ := List.mem_zipIdx hy
    have hmem : y ∈ xs := hget ▸ List.getElem_mem _
    exact hrest y (List.mem_cons_of_mem _ hmem) i (by omega) c d hcd

/-- The loop rule for loops that collect results. -/
protected theorem mapM {Q : α → β → Prop} {f : γ → EStateM ε σ α} {g : γ → EStateM ε τ β} :
    ∀ {xs : List γ}, (∀ x ∈ xs, Simulates R Q (f x) (g x)) →
      Simulates R (List.Forall₂ Q) (xs.mapM f) (xs.mapM g)
  | [], _ => Simulates.pure .nil
  | x :: xs, h => by
    rw [List.mapM_cons, List.mapM_cons]
    refine (h x (List.mem_cons_self ..)).bind fun a b hab => ?_
    have hrest := Simulates.mapM fun y hy => h y (List.mem_cons_of_mem x hy)
    exact hrest.bind fun as bs hall => Simulates.pure (.cons hab hall)

/-! ## A second part of the state that nobody reads -/

/-- A program on the first part of the state does what it does alone. -/
theorem onFirst_self {x : EStateM ε σ α} {Φ : α → Prop} (hx : Ensures x Φ) :
    Simulates (fun (s : σ × τ) t => s.1 = t) (fun a b => a = b ∧ Φ a) (onFirst x) x := by
  rintro ⟨s, u⟩ _ rfl
  rw [onFirst]
  cases h : x s with
  | ok a s' => exact ⟨rfl, .ok ⟨rfl, hx s a s' h⟩⟩
  | error e s' => exact ⟨rfl, .error e⟩

/-- A program on the second part may be left out, if it does not raise. -/
theorem onSecond_bind {Q : α → β → Prop} {x : EStateM ε τ γ} {f : γ → EStateM ε (σ × τ) α}
    {y : EStateM ε σ β} (hx : Total x)
    (hf : ∀ c, Simulates (fun (s : σ × τ) t => s.1 = t) Q (f c) y) :
    Simulates (fun (s : σ × τ) t => s.1 = t) Q (onSecond x >>= f) y := by
  rintro ⟨s, u⟩ _ rfl
  obtain ⟨c, u', hxu⟩ := hx u
  have hsecond : (onSecond x : EStateM ε (σ × τ) γ) (s, u) = .ok c (s, u') :=
    onSecond_eq_ok.mpr ⟨hxu, rfl⟩
  rw [bind_ok hsecond]
  exact hf c (s, u') s rfl

end Simulates

end Effect
