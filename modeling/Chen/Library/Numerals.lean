import Mathlib.Data.List.TakeWhile
import Mathlib.Data.Nat.Digits.Defs
import Mathlib.Data.Rat.Cast.Defs

/-!
# Decimal numerals in a text

The maximal numerals of a text, as they are read from left to right, and the numbers they denote.
Which characters are digits, what they count, and which one is the decimal point are parameters.
-/

namespace Numerals

variable {α : Type} [DecidableEq α] (digit : α → Bool) (point : α) (decimal : α → ℕ)

/-- The point that a text begins with, and the digits behind it. -/
def fraction : List α → List α
  | [] => []
  | c :: cs => if c = point then c :: cs.takeWhile digit else []

/-- What the fraction leaves of the text. -/
def behindFraction : List α → List α
  | [] => []
  | c :: cs => if c = point then cs.dropWhile digit else c :: cs

/-- The numeral that a text begins with. -/
def numeral (text : List α) : List α :=
  text.takeWhile digit ++ fraction digit point (text.dropWhile digit)

/-- The numerals of a text; its first `skip` characters belong to the numeral before it. -/
def numeralsFrom : ℕ → List α → List (List α)
  | _, [] => []
  | skip + 1, _ :: cs => numeralsFrom skip cs
  | 0, c :: cs =>
    if digit c then
      numeral digit point (c :: cs) :: numeralsFrom ((numeral digit point (c :: cs)).length - 1) cs
    else numeralsFrom 0 cs

/-- The numerals of a text. -/
def numerals (text : List α) : List (List α) := numeralsFrom digit point 0 text

/-- The number that digits denote. -/
def natValue (digits : List α) : ℕ := Nat.ofDigits 10 (digits.reverse.map decimal)

/-- The number that a numeral denotes. -/
def value (n : List α) : ℚ :=
  let places := (n.dropWhile (· ≠ point)).tail
  natValue decimal (n.takeWhile (· ≠ point)) + natValue decimal places / 10 ^ places.length

variable {digit point decimal}

/-- The fraction of a text and what stands behind it are the text. -/
theorem fraction_append (text : List α) :
    fraction digit point text ++ behindFraction digit point text = text := by
  cases text with
  | nil => rfl
  | cons c cs =>
    rw [fraction, behindFraction]
    split
    · rw [List.cons_append, List.takeWhile_append_dropWhile]
    · rfl

/-- The numeral of a text and what stands behind it are the text. -/
theorem numeral_append (text : List α) :
    numeral digit point text ++ behindFraction digit point (text.dropWhile digit) = text := by
  rw [numeral, List.append_assoc, fraction_append, List.takeWhile_append_dropWhile]

/-- A numeral begins with its first digit, and goes on with digits and a fraction. -/
theorem numeral_cons {c : α} (hc : digit c) (cs : List α) :
    numeral digit point (c :: cs) =
      c :: (cs.takeWhile digit ++ fraction digit point (cs.dropWhile digit)) := by
  rw [numeral, List.takeWhile_cons_of_pos hc, List.dropWhile_cons_of_pos hc, List.cons_append]

/-- A numeral begins with a digit. -/
theorem head_of_mem_numerals {text n : List α} (h : n ∈ numerals digit point text) :
    ∃ c cs, n = c :: cs ∧ digit c := by
  suffices ∀ skip, n ∈ numeralsFrom digit point skip text → ∃ c cs, n = c :: cs ∧ digit c from
    this 0 h
  clear h
  intro skip h
  induction text generalizing skip with
  | nil => cases skip <;> cases h
  | cons c cs ih =>
    cases skip with
    | succ skip => exact ih skip h
    | zero =>
      rw [numeralsFrom] at h
      split at h
      next hc =>
        rcases List.mem_cons.mp h with rfl | h
        · exact ⟨c, _, numeral_cons hc cs, hc⟩
        · exact ih _ h
      next => exact ih 0 h

/-- Digits alone denote their number. -/
theorem value_of_digits {n : List α} (hn : ∀ c ∈ n, digit c) (hpoint : ¬digit point) :
    value point decimal n = natValue decimal n := by
  have hne (c : α) (hc : c ∈ n) : decide (c ≠ point) = true := by
    refine decide_eq_true ?_
    rintro rfl
    exact hpoint (hn c hc)
  rw [value, List.takeWhile_eq_self_iff.mpr hne, List.dropWhile_eq_nil_iff.mpr hne]
  simp [natValue]

end Numerals
