import Chen.Library.Effect

/-!
# What a program's value satisfies

`Ensures x Φ`: whenever `x` returns, from whatever state, `Φ` holds of the value. Nothing is said of
the states, or of a program that raises. The rules follow the program's text.
-/

namespace Effect

variable {ε σ α β : Type}

/-- Whatever `x` returns satisfies `Φ`. -/
def Ensures (x : EStateM ε σ α) (Φ : α → Prop) : Prop := ∀ s a s', x s = .ok a s' → Φ a

namespace Ensures

/-- A weaker postcondition. -/
theorem mono {x : EStateM ε σ α} {Φ Ψ : α → Prop} (h : Ensures x Φ) (himp : ∀ a, Φ a → Ψ a) :
    Ensures x Ψ :=
  fun s a s' hx => himp a (h s a s' hx)

/-- Every program ensures what is always true. -/
theorem trivial (x : EStateM ε σ α) : Ensures x fun _ => True := fun _ _ _ _ => True.intro

/-- `pure` ensures what holds of its value. -/
protected theorem pure {Φ : α → Prop} {a : α} (h : Φ a) : Ensures (pure a : EStateM ε σ α) Φ := by
  intro s b s' hpure
  cases hpure
  exact h

/-- A program that never returns ensures everything. -/
protected theorem throw {Φ : α → Prop} (e : ε) : Ensures (throw e : EStateM ε σ α) Φ := by
  intro s a s' hthrow
  cases hthrow

/-- Sequencing: the second program may use what the first one ensures. -/
protected theorem bind {x : EStateM ε σ α} {f : α → EStateM ε σ β} {Φ : α → Prop} {Ψ : β → Prop}
    (hx : Ensures x Φ) (hf : ∀ a, Φ a → Ensures (f a) Ψ) : Ensures (x >>= f) Ψ := by
  intro s b s' h
  obtain ⟨a, s₁, hxs, hfa⟩ := bind_eq_ok.mp h
  exact hf a (hx s a s₁ hxs) s₁ b s' hfa

/-- What comes first does not matter. -/
theorem bind_right {x : EStateM ε σ α} {f : α → EStateM ε σ β} {Ψ : β → Prop}
    (hf : ∀ a, Ensures (f a) Ψ) : Ensures (x >>= f) Ψ :=
  (trivial x).bind fun a _ => hf a

/-- A lifted result ensures what holds of its value, if it is one. -/
protected theorem liftExcept {Φ : α → Prop} {r : Except ε α} (h : ∀ a, r = .ok a → Φ a) :
    Ensures (liftExcept r : EStateM ε σ α) Φ := by
  intro s a s' hr
  exact h a (liftExcept_eq_ok.mp hr).1

/-- A `try` whose body returned has a value of the body's. -/
protected theorem attempt {x : EStateM ε σ α} {Φ : α → Prop} (h : Ensures x Φ) :
    Ensures (attempt x) fun r => ∀ a, r = .ok a → Φ a := by
  intro s r s' hr a hra
  cases hr
  exact h s a _ (eq_ok_of_outcome hra)

/-- The loop rule. -/
protected theorem foldlM {f : β → α → EStateM ε σ β} {I : β → Prop} {xs : List α}
    (hstep : ∀ x ∈ xs, ∀ b, I b → Ensures (f b x) I) {b : β} (hb : I b) :
    Ensures (xs.foldlM f b) I := by
  induction xs generalizing b with
  | nil => exact Ensures.pure hb
  | cons x xs ih =>
    rw [List.foldlM_cons]
    refine (hstep x (List.mem_cons_self ..) b hb).bind fun b' hb' => ?_
    exact ih (fun y hy => hstep y (List.mem_cons_of_mem _ hy)) hb'

end Ensures

end Effect
