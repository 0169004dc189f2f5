import Chen.Library.Effect

/-!
# Programs with a tally

A program `y` on `σ × ℕ` is a program `x` on `σ` that also counts. `Tallies y x s Φ` says that from
the state `s`, wherever `x` returns, `y` returns the same and has counted a number that `Φ` relates
to what `x` returned. As with the specification by trace, the rules follow the program's text.
-/

namespace Effect

variable {ε σ α β : Type}

/-- Count `n` more. -/
def tally (n : ℕ) : EStateM ε (σ × ℕ) Unit := modify fun s => (s.1, s.2 + n)

/-- From `s`, where `x` returns, `y` returns the same and counts `c` on top, with `Φ a s' c`. -/
def Tallies (y : EStateM ε (σ × ℕ) α) (x : EStateM ε σ α) (s : σ) (Φ : α → σ → ℕ → Prop) : Prop :=
  ∀ n a s', x s = .ok a s' → ∃ c, y (s, n) = .ok a (s', n + c) ∧ Φ a s' c

namespace Tallies

variable {y : EStateM ε (σ × ℕ) α} {x : EStateM ε σ α} {s : σ} {Φ : α → σ → ℕ → Prop}

/-- A weaker postcondition, which may use that the program without the tally returned. -/
theorem mono {Ψ : α → σ → ℕ → Prop} (h : Tallies y x s Φ)
    (himp : ∀ a s' c, x s = .ok a s' → Φ a s' c → Ψ a s' c) : Tallies y x s Ψ := by
  intro n a s' hx
  obtain ⟨c, hy, hΦ⟩ := h n a s' hx
  exact ⟨c, hy, himp a s' c hx hΦ⟩

/-- `pure` counts nothing. -/
protected theorem pure {a : α} (h : Φ a s 0) :
    Tallies (pure a : EStateM ε (σ × ℕ) α) (pure a) s Φ := by
  intro n b s' hx
  cases hx
  exact ⟨0, rfl, h⟩

/-- A program that does not count. -/
protected theorem onFirst (h : ∀ a s', x s = .ok a s' → Φ a s' 0) :
    Tallies (onFirst x) x s Φ := by
  intro n a s' hx
  exact ⟨0, onFirst_eq_ok.mpr ⟨hx, rfl⟩, h a s' hx⟩

/-- A lifted result counts nothing. -/
protected theorem liftExcept {r : Except ε α} (h : ∀ a, r = .ok a → Φ a s 0) :
    Tallies (liftExcept r : EStateM ε (σ × ℕ) α) (liftExcept r) s Φ := by
  intro n a s' hx
  obtain ⟨hr, rfl⟩ := liftExcept_eq_ok.mp hx
  exact ⟨0, liftExcept_eq_ok.mpr ⟨hr, rfl⟩, h a hr⟩

/-- Sequencing adds the counts. -/
protected theorem bind {g : α → EStateM ε (σ × ℕ) β} {f : α → EStateM ε σ β}
    {Ψ : β → σ → ℕ → Prop} (h : Tallies y x s Φ)
    (hf : ∀ a s' c, x s = .ok a s' → Φ a s' c →
      Tallies (g a) (f a) s' fun b s'' c' => Ψ b s'' (c + c')) :
    Tallies (y >>= g) (x >>= f) s Ψ := by
  intro n b s'' hseq
  obtain ⟨a, s', hx, hrest⟩ := bind_eq_ok.mp hseq
  obtain ⟨c, hy, hΦ⟩ := h n a s' hx
  obtain ⟨c', hg, hΨ⟩ := hf a s' c hx hΦ (n + c) b s'' hrest
  refine ⟨c + c', ?_, hΨ⟩
  rw [bind_ok hy, hg, Nat.add_assoc]

/-- A program in front of which something in the state is counted. -/
theorem get_tally {g : EStateM ε (σ × ℕ) α} {m : σ → ℕ}
    (h : Tallies g x s fun a s' c => Φ a s' (m s + c)) :
    Tallies (do let t ← get; tally (m t.1); g) x s Φ := by
  intro n a s' hx
  obtain ⟨c, hg, hΦ⟩ := h (n + m s) a s' hx
  refine ⟨m s + c, ?_, hΦ⟩
  show g (s, n + m s) = _
  rw [hg, Nat.add_assoc]

/-- The loop rule. `P` is what one iteration establishes and `I` what the iterations over a list do,
both from a value and a state to a value and a state, with the count in between. -/
protected theorem foldlM {g : β → α → EStateM ε (σ × ℕ) β} {f : β → α → EStateM ε σ β}
    {P : α → β → σ → β → σ → ℕ → Prop} {I : List α → β → σ → β → σ → ℕ → Prop}
    (hnil : ∀ b s, I [] b s b s 0)
    (hcons : ∀ {x xs b s b₁ s₁ c b₂ s₂ c'}, P x b s b₁ s₁ c → I xs b₁ s₁ b₂ s₂ c' →
      I (x :: xs) b s b₂ s₂ (c + c'))
    {xs : List α} (hstep : ∀ x ∈ xs, ∀ b s, Tallies (g b x) (f b x) s (P x b s)) (b : β) (s : σ) :
    Tallies (xs.foldlM g b) (xs.foldlM f b) s (I xs b s) := by
  induction xs generalizing b s with
  | nil => exact Tallies.pure (hnil b s)
  | cons x xs ih =>
    rw [List.foldlM_cons, List.foldlM_cons]
    refine (hstep x (by simp) b s).bind fun b₁ s₁ c _ hP => ?_
    refine (ih (fun y hy => hstep y (by simp [hy])) b₁ s₁).mono fun b₂ s₂ c' _ hI => ?_
    exact hcons hP hI

end Tallies

end Effect
