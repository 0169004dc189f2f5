import Chen.Python.Text
import Chen.Python.Exception
import Mathlib.Data.String.Basic

/-!
# Bytes

UTF-8, `struct` and `os.urandom`. A `bytes` value is a list.
-/

namespace Chen

/-- `bytes`. -/
abbrev Bytes : Type := List UInt8

namespace Str

/-- `data.decode("utf-8")`. -/
def decodeUtf8 (data : Bytes) : Except Exn String :=
  match data.toByteArray.utf8Decode? with
  | some chars => .ok (String.ofList chars.toList)
  | none => .error (.other "UnicodeDecodeError" "'utf-8' codec can't decode bytes")

/-- Encoded text decodes to itself. -/
theorem decodeUtf8_utf8 (s : String) : decodeUtf8 (utf8 s) = .ok s := by
  have hencode : (utf8 s).toByteArray = s.toList.utf8Encode := rfl
  rw [decodeUtf8, hencode, List.utf8Decode?_utf8Encode]
  simp

/-- What is decoded is encoded again, byte for byte. -/
theorem decodeUtf8_eq_ok {data : Bytes} {s : String} : decodeUtf8 data = .ok s ↔ utf8 s = data := by
  constructor
  · intro h
    rw [decodeUtf8] at h
    split at h
    case h_1 chars hchars =>
      cases h
      have hsome : data.toByteArray.utf8Decode?.isSome := by rw [hchars]; rfl
      have hencode := ByteArray.utf8Encode_get_utf8Decode? (h := hsome)
      simp only [hchars, Option.get_some] at hencode
      have hbytes : (utf8 (String.ofList chars.toList)).toByteArray = data.toByteArray := by
        rw [← hencode, utf8_ofList]
        rfl
      simpa using congrArg (·.data.toList) hbytes
    case h_2 => cases h
  · rintro rfl
    exact decodeUtf8_utf8 s

/-- Every character takes at least one byte. -/
theorem length_le_utf8 (s : String) : s.length ≤ (utf8 s).length := by
  rw [utf8, ← String.length_toList]
  induction s.toList with
  | nil => simp
  | cons c cs ih =>
    have hpos := c.utf8Size_pos
    rw [List.flatMap_cons, List.length_append, String.length_utf8EncodeChar, List.length_cons]
    omega

end Str

/-! ## `struct` -/

/-- `struct.pack(">I", n)`. -/
def packBig4 (n : ℕ) : Except Exn Bytes :=
  if n < 2 ^ 32 then
    .ok [UInt8.ofNat (n / 2 ^ 24), UInt8.ofNat (n / 2 ^ 16), UInt8.ofNat (n / 2 ^ 8), UInt8.ofNat n]
  else .error (.other "struct.error" "'I' format requires 0 <= number <= 4294967295")

/-- `struct.unpack(">I", data)[0]`, and of fewer bytes than four. -/
def unpackBig (data : Bytes) : ℕ := data.foldl (fun n b => n * 256 + b.toNat) 0

/-- Only numbers of 32 bits are packed. -/
theorem lt_of_packBig4 {n : ℕ} {data : Bytes} (h : packBig4 n = .ok data) : n < 2 ^ 32 := by
  by_contra hge
  rw [packBig4, if_neg hge] at h
  cases h

/-- A number of 32 bits is packed into four bytes, which unpack to it. -/
theorem packBig4_eq_ok {n : ℕ} (h : n < 2 ^ 32) :
    ∃ data, packBig4 n = .ok data ∧ data.length = 4 ∧ unpackBig data = n := by
  refine ⟨_, if_pos h, rfl, ?_⟩
  simp only [unpackBig, List.foldl_cons, List.foldl_nil, UInt8.toNat_ofNat']
  omega

/-- Four bytes are the packing of the number that they are. -/
theorem packBig4_unpackBig {data : Bytes} (h : data.length = 4) :
    packBig4 (unpackBig data) = .ok data := by
  match data, h with
  | [a, b, c, d], _ =>
    have ha := a.toNat_lt
    have hb := b.toNat_lt
    have hc := c.toNat_lt
    have hd := d.toNat_lt
    have hlt : unpackBig [a, b, c, d] < 2 ^ 32 := by
      simp only [unpackBig, List.foldl_cons, List.foldl_nil]
      omega
    rw [packBig4, if_pos hlt]
    simp only [unpackBig, List.foldl_cons, List.foldl_nil, Except.ok.injEq, List.cons.injEq,
      and_true]
    refine ⟨?_, ?_, ?_, ?_⟩
    all_goals
      apply UInt8.toNat_inj.mp
      rw [UInt8.toNat_ofNat']
      omega

/-! ## Randomness -/

/-- The bytes that `os.urandom` is going to draw, by the number of the call and the size asked
for. -/
structure Entropy where
  draw : ℕ → ℕ → Bytes
  length_draw : ∀ call size, (draw call size).length = size
  used : ℕ := 0

/-- `os.urandom(size)`. -/
def urandom (size : ℕ) : EStateM Exn Entropy Bytes := fun s =>
  .ok (s.draw s.used size) { s with used := s.used + 1 }

/-- Every draw repeats the number of the call. -/
def Entropy.counter : Entropy where
  draw call size := List.replicate size (UInt8.ofNat call)
  length_draw := by simp

end Chen
