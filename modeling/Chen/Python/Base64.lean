import Chen.Python.Exception
import Mathlib.Data.List.Basic
import Mathlib.Data.String.Basic

/-!
# Base64

`base64.b64encode`, and `base64.b64decode` without validation: characters outside the alphabet are
skipped, and padding that completes a group ends the input.
-/

namespace Chen.Base64

/-- The alphabet. -/
def alphabet : List Char :=
  "ABCDEFGHIJKLMNOPQRSTUVWXYZabcdefghijklmnopqrstuvwxyz0123456789+/".toList

/-- The character of six bits. -/
def char (n : ℕ) : Char := alphabet.getD n 'A'

/-- The six bits of a character of the alphabet. -/
def value (c : Char) : Option ℕ := alphabet.findIdx? (· = c)

/-- The characters of a byte string. -/
def encodeChars : List UInt8 → List Char
  | [] => []
  | [a] => [char (a.toNat / 4), char (a.toNat % 4 * 16), '=', '=']
  | [a, b] =>
    [char (a.toNat / 4), char (a.toNat % 4 * 16 + b.toNat / 16), char (b.toNat % 16 * 4), '=']
  | a :: b :: c :: rest =>
    char (a.toNat / 4) :: char (a.toNat % 4 * 16 + b.toNat / 16) ::
      char (b.toNat % 16 * 4 + c.toNat / 64) :: char (c.toNat % 64) :: encodeChars rest

/-- `base64.b64encode(data).decode("ascii")`. -/
def b64encode (data : List UInt8) : String := String.ofList (encodeChars data)

/-- `binascii.a2b_base64`. `quad` is the position in a group of four, `left` holds the bits that
have not made a byte yet, `pads` counts the padding since the last character of the alphabet. -/
def a2b (quad left pads : ℕ) (out : List UInt8) : List Char → Except Exn (List UInt8)
  | [] =>
    if quad = 0 then .ok out
    else if quad = 1 then
      .error (.other "binascii.Error" s!"Invalid base64-encoded string: number of data characters ({out.length / 3 * 4 + 1}) cannot be 1 more than a multiple of 4")
    else .error (.other "binascii.Error" "Incorrect padding")
  | ch :: rest =>
    if ch = '=' then
      if 2 ≤ quad then
        if 4 ≤ quad + (pads + 1) then .ok out else a2b quad left (pads + 1) out rest
      else a2b quad left pads out rest
    else
      match value ch with
      | none => a2b quad left pads out rest
      | some v =>
        match quad with
        | 0 => a2b 1 v 0 out rest
        | 1 => a2b 2 (v % 16) 0 (out ++ [UInt8.ofNat (left * 4 + v / 16)]) rest
        | 2 => a2b 3 (v % 4) 0 (out ++ [UInt8.ofNat (left * 16 + v / 4)]) rest
        | _ => a2b 0 0 0 (out ++ [UInt8.ofNat (left * 64 + v)]) rest

/-- `base64.b64decode(s)`. -/
def b64decode (s : String) : Except Exn (List UInt8) :=
  if s.toList.all (·.toNat < 0x80) then a2b 0 0 0 [] s.toList
  else .error (.value "string argument should contain only ASCII characters")

/-- `str(e)`, of what `b64decode` raises. -/
def errorText : Exn → String
  | .value message | .other _ message => message
  | _ => ""

/-! ## Round trip -/

/-- The value of the `n`-th character of the alphabet is `n`. -/
theorem value_char {n : ℕ} (h : n < 64) : value (char n) = some n := by
  have hall : ∀ n : Fin 64, value (char n) = some n.val := by decide +kernel
  exact hall ⟨n, h⟩

/-- The padding character is not in the alphabet. -/
theorem char_ne_pad {n : ℕ} (h : n < 64) : char n ≠ '=' := by
  have hall : ∀ n : Fin 64, char n ≠ '=' := by decide +kernel
  exact hall ⟨n, h⟩

/-- The alphabet is ASCII. -/
theorem toNat_char_lt {n : ℕ} (h : n < 64) : (char n).toNat < 0x80 := by
  have hall : ∀ n : Fin 64, (char n).toNat < 0x80 := by decide +kernel
  exact hall ⟨n, h⟩

section Step

variable {n : ℕ} (h : n < 64) (left pads : ℕ) (out : List UInt8) (rest : List Char)

include h

/-- A character of the alphabet goes on with its six bits. -/
theorem a2b_char (quad : ℕ) : a2b quad left pads out (char n :: rest) =
    match quad with
    | 0 => a2b 1 n 0 out rest
    | 1 => a2b 2 (n % 16) 0 (out ++ [UInt8.ofNat (left * 4 + n / 16)]) rest
    | 2 => a2b 3 (n % 4) 0 (out ++ [UInt8.ofNat (left * 16 + n / 4)]) rest
    | _ => a2b 0 0 0 (out ++ [UInt8.ofNat (left * 64 + n)]) rest := by
  rw [a2b, if_neg (char_ne_pad h), value_char h]

/-- The first character of a group of four is kept. -/
theorem a2b_zero : a2b 0 left pads out (char n :: rest) = a2b 1 n 0 out rest :=
  a2b_char h left pads out rest 0

/-- The second character of a group completes its first byte. -/
theorem a2b_one : a2b 1 left pads out (char n :: rest) =
    a2b 2 (n % 16) 0 (out ++ [UInt8.ofNat (left * 4 + n / 16)]) rest :=
  a2b_char h left pads out rest 1

/-- The third character of a group completes its second byte. -/
theorem a2b_two : a2b 2 left pads out (char n :: rest) =
    a2b 3 (n % 4) 0 (out ++ [UInt8.ofNat (left * 16 + n / 4)]) rest :=
  a2b_char h left pads out rest 2

/-- The fourth character of a group completes its third byte. -/
theorem a2b_three : a2b 3 left pads out (char n :: rest) =
    a2b 0 0 0 (out ++ [UInt8.ofNat (left * 64 + n)]) rest :=
  a2b_char h left pads out rest 3

end Step

/-- A byte from its value. -/
theorem ofNat_eq {n : ℕ} {a : UInt8} (h : n = a.toNat) : UInt8.ofNat n = a := by
  rw [h, UInt8.ofNat_toNat]

/-- Encoded data are decoded from the beginning of a group on. -/
theorem a2b_encodeChars (data out : List UInt8) (left pads : ℕ) :
    a2b 0 left pads out (encodeChars data) = .ok (out ++ data) := by
  induction data using encodeChars.induct generalizing out left pads with
  | case1 => simp [encodeChars, a2b]
  | case2 a =>
    have ha := a.toNat_lt
    rw [encodeChars, a2b_zero (by omega), a2b_one (by omega), ofNat_eq (a := a) (by omega)]
    rfl
  | case3 a b =>
    have ha := a.toNat_lt
    have hb := b.toNat_lt
    rw [encodeChars, a2b_zero (by omega), a2b_one (by omega), a2b_two (by omega),
      ofNat_eq (a := a) (by omega), ofNat_eq (a := b) (by omega), List.append_assoc]
    rfl
  | case4 a b c rest ih =>
    have ha := a.toNat_lt
    have hb := b.toNat_lt
    have hc := c.toNat_lt
    rw [encodeChars, a2b_zero (by omega), a2b_one (by omega), a2b_two (by omega),
      a2b_three (by omega), ih, ofNat_eq (a := a) (by omega), ofNat_eq (a := b) (by omega),
      ofNat_eq (a := c) (by omega)]
    simp

/-- Encoded data are ASCII. -/
theorem encodeChars_ascii (data : List UInt8) : ∀ c ∈ encodeChars data, c.toNat < 0x80 := by
  have hpad : '='.toNat < 0x80 := by decide
  induction data using encodeChars.induct with
  | case1 => simp [encodeChars]
  | case2 a =>
    have ha := a.toNat_lt
    simp only [encodeChars, List.forall_mem_cons, List.not_mem_nil, false_implies, implies_true,
      and_true]
    exact ⟨toNat_char_lt (by omega), toNat_char_lt (by omega), hpad, hpad⟩
  | case3 a b =>
    have ha := a.toNat_lt
    have hb := b.toNat_lt
    simp only [encodeChars, List.forall_mem_cons, List.not_mem_nil, false_implies, implies_true,
      and_true]
    exact ⟨toNat_char_lt (by omega), toNat_char_lt (by omega), toNat_char_lt (by omega), hpad⟩
  | case4 a b c rest ih =>
    have ha := a.toNat_lt
    have hb := b.toNat_lt
    have hc := c.toNat_lt
    simp only [encodeChars, List.forall_mem_cons]
    exact ⟨toNat_char_lt (by omega), toNat_char_lt (by omega), toNat_char_lt (by omega),
      toNat_char_lt (by omega), ih⟩

/-- What is encoded is decoded. -/
theorem b64decode_b64encode (data : List UInt8) : b64decode (b64encode data) = .ok data := by
  have hascii : (encodeChars data).all (·.toNat < 0x80) = true := by
    rw [List.all_eq_true]
    exact fun c hc => decide_eq_true (encodeChars_ascii data c hc)
  rw [b64decode, b64encode, String.toList_ofList, if_pos hascii, a2b_encodeChars, List.nil_append]

/-- Encoding never shortens. -/
theorem le_length_b64encode (data : List UInt8) : data.length ≤ (b64encode data).length := by
  rw [b64encode, String.length_ofList]
  induction data using encodeChars.induct with
  | case1 => simp
  | case2 a => simp [encodeChars]
  | case3 a b => simp [encodeChars]
  | case4 a b c rest ih =>
    simp only [encodeChars, List.length_cons]
    omega

end Chen.Base64
