import Mathlib.Data.List.Lex
import Mathlib.Order.Defs.LinearOrder
import Mathlib.Tactic.NormNum

/-!
# Decimals of a fixed width

A text that begins with a decimal of a fixed width is ordered by the number first and by the rest
after that, as a number in mixed radix is by its digits.
-/

namespace FixedWidth

/-- What is ordered by a first component, and by a second one where the first ones are equal. -/
theorem lt_iff_of_separated {α β : Type} [LinearOrder α] [LinearOrder β] {u u' : α} {a a' : β}
    {P : Prop} (hlt : a < a' → u < u') (hgt : a' < a → u' < u) (heq : a = a' → (u < u' ↔ P)) :
    u < u' ↔ a < a' ∨ a = a' ∧ P := by
  rcases lt_trichotomy a a' with h | h | h
  · exact iff_of_true (hlt h) (.inl h)
  · simp [heq h, h]
  · exact iff_of_false (hgt h).asymm (by simp [h.asymm, h.ne'])

/-- A digit of a number in mixed radix. -/
theorem mul_add_lt_iff {b x y : ℕ} (hx : x < b) (hy : y < b) (a a' : ℕ) :
    a * b + x < a' * b + y ↔ a < a' ∨ a = a' ∧ x < y := by
  have hstep {c c' z w : ℕ} (h : c < c') (hz : z < b) : c * b + z < c' * b + w :=
    calc c * b + z < (c + 1) * b := by rw [Nat.add_mul, Nat.one_mul]; omega
      _ ≤ c' * b := Nat.mul_le_mul_right b h
      _ ≤ c' * b + w := Nat.le_add_right ..
  refine lt_iff_of_separated (hstep · hx) (hstep · hy) ?_
  rintro rfl
  exact Nat.add_lt_add_iff_left

/-- A number has one quotient and one remainder below the base. -/
theorem mul_add_inj {b x y : ℕ} (hx : x < b) (hy : y < b) (a a' : ℕ) :
    a * b + x = a' * b + y ↔ a = a' ∧ x = y := by
  have hlt := mul_add_lt_iff hx hy a a'
  have hgt := mul_add_lt_iff hy hx a' a
  omega

/-- Components that are compared one after the other. -/
theorem lex_assoc {p q r s t : Prop} : (p ∨ q ∧ r) ∨ (q ∧ s) ∧ t ↔ p ∨ q ∧ (r ∨ s ∧ t) := by
  rw [or_assoc, and_assoc, ← and_or_left]

/-- `width` decimal digits of `n`, the highest first. -/
def decimal : ℕ → ℕ → List Char
  | 0, _ => []
  | width + 1, n => decimal width (n / 10) ++ [(n % 10).digitChar]

/-- Digits are ordered like their characters. -/
theorem digitChar_lt_iff {n m : ℕ} (hn : n < 10) (hm : m < 10) :
    n.digitChar < m.digitChar ↔ n < m := by
  have hall : ∀ n < 10, ∀ m < 10, n.digitChar < m.digitChar ↔ n < m := by decide
  exact hall n hn m hm

/-- Different digits have different characters. -/
theorem digitChar_inj {n m : ℕ} (hn : n < 10) (hm : m < 10) :
    n.digitChar = m.digitChar ↔ n = m := by
  have hall : ∀ n < 10, ∀ m < 10, n.digitChar = m.digitChar ↔ n = m := by decide
  exact hall n hn m hm

/-- The number decides, and after it the rest of the text. -/
theorem decimal_append_lt_iff {width n m : ℕ} (hn : n < 10 ^ width) (hm : m < 10 ^ width)
    (x y : List Char) : decimal width n ++ x < decimal width m ++ y ↔ n < m ∨ n = m ∧ x < y := by
  induction width generalizing n m x y with
  | zero =>
    obtain rfl : n = 0 := by omega
    obtain rfl : m = 0 := by omega
    simp [decimal]
  | succ width ih =>
    rw [Nat.pow_succ] at hn hm
    have hn' : n % 10 < 10 := Nat.mod_lt _ (by decide)
    have hm' : m % 10 < 10 := Nat.mod_lt _ (by decide)
    rw [decimal, decimal, List.append_assoc, List.append_assoc, List.singleton_append,
      List.singleton_append, ih (by omega) (by omega), List.cons_lt_cons_iff,
      digitChar_lt_iff hn' hm', digitChar_inj hn' hm']
    have hlt : n < m ↔ n / 10 < m / 10 ∨ n / 10 = m / 10 ∧ n % 10 < m % 10 := by omega
    have heq : n = m ↔ n / 10 = m / 10 ∧ n % 10 = m % 10 := by omega
    rw [hlt, heq, lex_assoc]

/-- The character of a digit is ASCII. -/
theorem digitChar_lt_ascii {n : ℕ} (h : n < 10) : (n.digitChar).toNat < 0x80 := by
  have hall : ∀ n < 10, (n.digitChar).toNat < 0x80 := by decide
  exact hall n h

/-- A decimal numeral is ASCII. -/
theorem ascii_decimal {width n : ℕ} : ∀ c ∈ decimal width n, c.toNat < 0x80 := by
  induction width generalizing n with
  | zero => exact List.forall_mem_nil _
  | succ width ih =>
    rw [decimal, List.forall_mem_append, List.forall_mem_singleton]
    exact ⟨ih, digitChar_lt_ascii (Nat.mod_lt _ (by decide))⟩

end FixedWidth
