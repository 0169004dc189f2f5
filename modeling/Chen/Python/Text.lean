import Mathlib.Data.List.Basic
import Mathlib.Data.Int.Notation

/-!
# Strings and slices

A `str` is a sequence of Unicode scalar values. What depends on the Unicode database is a
parameter, `Unicode`.
-/

namespace Chen

/-- The Unicode database behind `str` methods and regular expressions. -/
class Unicode where
  /-- `str.lower`. -/
  lower : String → String
  /-- `str.isspace`, for one character. -/
  isSpace : Char → Bool
  /-- `\w`. -/
  isWord : Char → Bool
  /-- `\d`. -/
  isDigit : Char → Bool
  /-- `str.isprintable`, for one character. -/
  isPrintable : Char → Bool

/-- The database restricted to ASCII. -/
@[reducible] def Unicode.ascii : Unicode where
  lower s := String.ofList (s.toList.map Char.toLower)
  isSpace := Char.isWhitespace
  isWord c := c.isAlphanum || c = '_'
  isDigit := Char.isDigit
  isPrintable c := 0x20 ≤ c.toNat && c.toNat < 0x7f

/-- `xs[:n]`. A negative bound counts from the end. -/
def sliceTo {α : Type} (xs : List α) (n : ℤ) : List α :=
  if 0 ≤ n then xs.take n.toNat else xs.take (xs.length - (-n).toNat)

/-- `xs[n:]`. A negative bound counts from the end. -/
def sliceFrom {α : Type} (xs : List α) (n : ℤ) : List α :=
  if 0 ≤ n then xs.drop n.toNat else xs.drop (xs.length - (-n).toNat)

namespace Str

/-- `s[:n]`. -/
def prefixTo (s : String) (n : ℤ) : String := String.ofList (sliceTo s.toList n)

/-- `s.encode("utf-8")`. -/
def utf8 (s : String) : List UInt8 := s.toList.flatMap String.utf8EncodeChar

/-- The bytes of some characters. -/
theorem utf8_ofList (cs : List Char) :
    utf8 (String.ofList cs) = cs.flatMap String.utf8EncodeChar := by
  rw [utf8, String.toList_ofList]

/-- `len(s) // 4`, at least one: the four-characters-per-token estimate. -/
def estimateTokens (s : String) : ℤ := max 1 ((s.length : ℤ) / 4)

/-- One lower-case hexadecimal digit. -/
def hexDigit (n : ℕ) : Char := (String.toList "0123456789abcdef").getD n '0'

/-- `digits` hexadecimal digits of `n`, most significant first. -/
def hexPad : ℕ → ℕ → List Char
  | 0, _ => []
  | digits + 1, n => hexPad digits (n / 16) ++ [hexDigit (n % 16)]

/-- `bytes.hex()`. -/
def hex (bytes : List UInt8) : String :=
  String.ofList (bytes.flatMap fun b => hexPad 2 b.toNat)

/-- A padded number has the digits asked for. -/
theorem length_hexPad (digits n : ℕ) : (hexPad digits n).length = digits := by
  induction digits generalizing n with
  | zero => rfl
  | succ digits ih => rw [hexPad, List.length_append, ih, List.length_singleton]

/-- Two digits for a byte. -/
theorem length_hex (bytes : List UInt8) : (hex bytes).length = 2 * bytes.length := by
  rw [hex, String.length_ofList, List.length_flatMap]
  simp [length_hexPad, Nat.mul_comm]

/-- Different hexadecimal digits have different characters. -/
theorem hexDigit_injOn {n m : ℕ} (hn : n < 16) (hm : m < 16) (h : hexDigit n = hexDigit m) :
    n = m := by
  have hall : ∀ n < 16, ∀ m < 16, hexDigit n = hexDigit m → n = m := by decide
  exact hall n hn m hm h

/-- The digits tell the bytes. -/
theorem hex_injective : Function.Injective hex := by
  intro bytes bytes' h
  have hchars : bytes.flatMap (fun b => hexPad 2 b.toNat) =
      bytes'.flatMap fun b => hexPad 2 b.toNat := by
    simpa [hex] using congrArg String.toList h
  have hpad (b : UInt8) : hexPad 2 b.toNat =
      [hexDigit (b.toNat / 16 % 16), hexDigit (b.toNat % 16)] := rfl
  simp only [hpad] at hchars
  clear h
  induction bytes generalizing bytes' with
  | nil =>
    cases bytes' with
    | nil => rfl
    | cons b' bytes' => cases hchars
  | cons b bytes ih =>
    cases bytes' with
    | nil => cases hchars
    | cons b' bytes' =>
      simp only [List.flatMap_cons, List.cons_append, List.nil_append, List.cons.injEq] at hchars
      obtain ⟨hhigh, hlow, hrest⟩ := hchars
      have hb := b.toNat_lt
      have hb' := b'.toNat_lt
      have hhigh := hexDigit_injOn (by omega) (by omega) hhigh
      have hlow := hexDigit_injOn (by omega) (by omega) hlow
      have hbyte : b = b' := UInt8.toNat_inj.mp (by omega)
      rw [hbyte, ih hrest]

/-- `s.strip()`. -/
def strip [Unicode] (s : String) : String :=
  String.ofList
    (((s.toList.dropWhile Unicode.isSpace).reverse.dropWhile Unicode.isSpace).reverse)

/-- One character of `repr(s)`, inside the quote `q`. -/
def reprChar [Unicode] (q c : Char) : List Char :=
  if c = q || c = '\\' then ['\\', c]
  else if c = '\n' then ['\\', 'n']
  else if c = '\r' then ['\\', 'r']
  else if c = '\t' then ['\\', 't']
  else if Unicode.isPrintable c then [c]
  else if c.toNat < 0x100 then '\\' :: 'x' :: hexPad 2 c.toNat
  else if c.toNat < 0x10000 then '\\' :: 'u' :: hexPad 4 c.toNat
  else '\\' :: 'U' :: hexPad 8 c.toNat

/-- `repr(s)`: single quotes, unless the text has one and no double quote. -/
def repr [Unicode] (s : String) : String :=
  let q := if s.toList.contains '\'' && !s.toList.contains '"' then '"' else '\''
  String.ofList (q :: s.toList.flatMap (reprChar q) ++ [q])

end Str

/-! ## Slices -/

/-- A slice up to a natural number takes that many. -/
theorem sliceTo_natCast {α : Type} (xs : List α) (n : ℕ) : sliceTo xs n = xs.take n := by
  simp [sliceTo]

/-- A slice up to a number that is not negative takes that many. -/
theorem sliceTo_of_nonneg {α : Type} (xs : List α) {n : ℤ} (h : 0 ≤ n) :
    sliceTo xs n = xs.take n.toNat := by
  rw [sliceTo, if_pos h]

/-- A slice of a mapped list is the mapped slice. -/
theorem map_sliceTo {α β : Type} (f : α → β) (xs : List α) (n : ℤ) :
    (sliceTo xs n).map f = sliceTo (xs.map f) n := by
  rw [sliceTo, sliceTo, apply_ite (List.map f), List.map_take, List.map_take, List.length_map]

/-- A slice takes a part of the list, in order. -/
theorem sliceTo_sublist {α : Type} (xs : List α) (n : ℤ) : (sliceTo xs n).Sublist xs := by
  rw [sliceTo]
  split <;> exact List.take_sublist ..

end Chen
