import Chen.Python.Exception
import Chen.Python.Text
import Mathlib.Data.List.Sort
import Mathlib.Data.String.Basic

/-!
# JSON

`json.dumps`, and `json.loads` on a list of strings, which reads back what `dumps` wrote. A string
with a lone surrogate is outside the model, so such an escape is not read. The keys of dictionaries
are strings.
-/

namespace Chen

/-! ## Numbers -/

/-- The characters of a number. -/
def Json.numberChar (c : Char) : Bool :=
  c.isDigit || c = '-' || c = '+' || c = '.' || c = 'e' || c = 'E'

/-- `[0-9]+`. -/
def Json.isDigits (cs : List Char) : Bool := !cs.isEmpty && cs.all Char.isDigit

/-- `-?(0|[1-9][0-9]*)`. -/
def Json.isInt (cs : List Char) : Bool :=
  let digits := if cs.head? = some '-' then cs.tail else cs
  isDigits digits && (digits = ['0'] || digits.head? ≠ some '0')

/-- `[eE][-+]?[0-9]+`. -/
def Json.isExponent (cs : List Char) : Bool :=
  (cs.head? = some 'e' || cs.head? = some 'E') &&
    let digits := cs.tail
    isDigits (if digits.head? = some '+' || digits.head? = some '-' then digits.tail else digits)

/-- `-?(0|[1-9][0-9]*)(\.[0-9]+)?([eE][-+]?[0-9]+)?`, with a fraction or an exponent. -/
def Json.isFloat (cs : List Char) : Bool :=
  let tail := cs.dropWhile fun c => c.isDigit || c = '-'
  isInt (cs.takeWhile fun c => c.isDigit || c = '-') &&
    if tail.head? = some '.' then
      let rest := tail.tail.dropWhile Char.isDigit
      isDigits (tail.tail.takeWhile Char.isDigit) && (rest.isEmpty || isExponent rest)
    else isExponent tail

/-- A text that `json.dumps` writes for a `float`. -/
def Json.IsFloatText (cs : List Char) : Prop :=
  cs ∈ ["NaN".toList, "Infinity".toList, "-Infinity".toList] ∨
    cs.all numberChar = true ∧ isFloat cs = true

instance (cs : List Char) : Decidable (Json.IsFloatText cs) := inferInstanceAs (Decidable (_ ∨ _))

/-- A `float`, by the text that `json.dumps` writes for it. -/
structure FloatRepr where
  text : List Char
  isFloatText : Json.IsFloatText text

/-! ## Values -/

/-- A value that `json.dumps` is given. -/
inductive Json where
  | null
  | bool (b : Bool)
  | int (n : ℤ)
  | float (x : FloatRepr)
  | str (s : String)
  | list (xs : List Json)
  | tuple (xs : List Json)
  | dict (items : List (String × Json))
  /-- An object of another type, by what `str` makes of it. -/
  | object (text : String)

namespace Json

/-- `\uXXXX`. -/
def unicodeEscape (n : ℕ) : List Char := '\\' :: 'u' :: Str.hexPad 4 n

/-- One character of a string. What is not printable ASCII is escaped by its UTF-16 code units. -/
def escape (c : Char) : List Char :=
  if c = '"' then ['\\', '"']
  else if c = '\\' then ['\\', '\\']
  else if c = '\n' then ['\\', 'n']
  else if c = '\r' then ['\\', 'r']
  else if c = '\t' then ['\\', 't']
  else if c = '\x0c' then ['\\', 'f']
  else if c = '\x08' then ['\\', 'b']
  else if 0x20 ≤ c.toNat ∧ c.toNat < 0x7f then [c]
  else if c.toNat < 0x10000 then unicodeEscape c.toNat
  else
    unicodeEscape (0xd800 + (c.toNat - 0x10000) / 0x400) ++
      unicodeEscape (0xdc00 + (c.toNat - 0x10000) % 0x400)

/-- A string in double quotes. -/
def quote (s : String) : List Char := '"' :: s.toList.flatMap escape ++ ['"']

/-- Texts with `, ` between them. -/
def commas : List (List Char) → List Char
  | [] => []
  | [x] => x
  | x :: xs => x ++ ',' :: ' ' :: commas xs

mutual

/-- `json.dumps(value, sort_keys=True, default=str)`. -/
def write : Json → List Char
  | .null => "null".toList
  | .bool b => if b then "true".toList else "false".toList
  | .int n => (toString n).toList
  | .float x => x.text
  | .str s => quote s
  | .list xs => '[' :: commas (writeList xs) ++ [']']
  | .tuple xs => '[' :: commas (writeList xs) ++ [']']
  | .dict items =>
    '\x7b' :: commas (((writeDict items).insertionSort (·.1 ≤ ·.1)).map (·.2)) ++ ['\x7d']
  | .object text => quote text

/-- The values of a list. -/
def writeList : List Json → List (List Char)
  | [] => []
  | x :: xs => write x :: writeList xs

/-- The items of a dictionary, with their keys. -/
def writeDict : List (String × Json) → List (String × List Char)
  | [] => []
  | (k, v) :: items => (k, quote k ++ ':' :: ' ' :: write v) :: writeDict items

end

/-- `json.dumps(value, sort_keys=True, default=str)`, as a string. -/
def dumps (value : Json) : String := String.ofList value.write

/-! ## Reading -/

/-- The value of a hexadecimal digit. -/
def hexVal (c : Char) : Option ℕ :=
  if '0' ≤ c ∧ c ≤ '9' then some (c.toNat - '0'.toNat)
  else if 'a' ≤ c ∧ c ≤ 'f' then some (c.toNat - 'a'.toNat + 10)
  else if 'A' ≤ c ∧ c ≤ 'F' then some (c.toNat - 'A'.toNat + 10)
  else none

/-- The number behind `\u`. -/
def hex4 (a b c d : Char) : Option ℕ := do
  let a ← hexVal a
  let b ← hexVal b
  let c ← hexVal c
  let d ← hexVal d
  pure (((a * 16 + b) * 16 + c) * 16 + d)

/-- The character behind a backslash. -/
def unescape : Char → Option ℕ
  | '"' => some '"'.toNat
  | '\\' => some '\\'.toNat
  | '/' => some '/'.toNat
  | 'n' => some '\n'.toNat
  | 'r' => some '\r'.toNat
  | 't' => some '\t'.toNat
  | 'f' => some 0x0c
  | 'b' => some 0x08
  | _ => none

/-- A string from behind its opening quote: its characters and code units, and the text after the
closing quote. -/
def scan : List Char → Option (List ℕ × List Char)
  | [] => none
  | '"' :: rest => some ([], rest)
  | '\\' :: 'u' :: a :: b :: c :: d :: rest => do
    let n ← hex4 a b c d
    let (units, after) ← scan rest
    pure (n :: units, after)
  | '\\' :: e :: rest => do
    let n ← unescape e
    let (units, after) ← scan rest
    pure (n :: units, after)
  | c :: rest =>
    if c.toNat < 0x20 then none
    else do
      let (units, after) ← scan rest
      pure (c.toNat :: units, after)

/-- Join surrogate pairs. -/
def joinSurrogates : List ℕ → Option (List Char)
  | [] => some []
  | [n] => if 0xd800 ≤ n ∧ n < 0xe000 then none else some [Char.ofNat n]
  | n :: m :: units =>
    if 0xd800 ≤ n ∧ n < 0xdc00 ∧ 0xdc00 ≤ m ∧ m < 0xe000 then
      (Char.ofNat (0x10000 + (n - 0xd800) * 0x400 + (m - 0xdc00)) :: ·) <$> joinSurrogates units
    else if 0xd800 ≤ n ∧ n < 0xe000 then none
    else (Char.ofNat n :: ·) <$> joinSurrogates (m :: units)

/-- Text without leading white space. -/
def skipSpace (text : List Char) : List Char :=
  text.dropWhile fun c => c = ' ' || c = '\t' || c = '\n' || c = '\r'

/-- The strings of a list from behind its bracket or a comma, and the text after the list. There
are at most `fuel` of them. -/
def readItems : ℕ → List Char → Option (List String × List Char)
  | 0, _ => none
  | fuel + 1, text =>
    match skipSpace text with
    | '"' :: body => do
      let (units, after) ← scan body
      let s ← joinSurrogates units
      match skipSpace after with
      | ']' :: rest => pure ([String.ofList s], rest)
      | ',' :: rest => do
        let (ss, rest) ← readItems fuel rest
        pure (String.ofList s :: ss, rest)
      | _ => none
    | _ => none

/-- The strings of a list, and the text after the list. -/
def readList (text : List Char) : Option (List String × List Char) :=
  match skipSpace text with
  | '[' :: inside =>
    match skipSpace inside with
    | ']' :: rest => some ([], rest)
    | _ => readItems inside.length inside
  | _ => none

/-- `json.loads(text)`, where the text is that of a list of strings. -/
def loadsStrings (text : String) : Except Exn (List String) :=
  match readList text.toList with
  | some (ss, rest) =>
    if (skipSpace rest).isEmpty then .ok ss else .error (.other "JSONDecodeError" "Extra data")
  | none => .error (.other "JSONDecodeError" "Expecting value")

/-! ## What is written is read back -/

/-- The value of a hexadecimal digit. -/
theorem hexVal_hexDigit {n : ℕ} (h : n < 16) : hexVal (Str.hexDigit n) = some n := by
  have hall : ∀ n < 16, hexVal (Str.hexDigit n) = some n := by decide
  exact hall n h

/-- Four digits read back as the number they were written for. -/
theorem scan_unicodeEscape {n : ℕ} (h : n < 0x10000) (rest : List Char) :
    scan (unicodeEscape n ++ rest) = (scan rest).map fun p => (n :: p.1, p.2) := by
  have hdigits : unicodeEscape n = ['\\', 'u', Str.hexDigit (n / 16 / 16 / 16 % 16),
      Str.hexDigit (n / 16 / 16 % 16), Str.hexDigit (n / 16 % 16), Str.hexDigit (n % 16)] := rfl
  have hnum : hex4 (Str.hexDigit (n / 16 / 16 / 16 % 16)) (Str.hexDigit (n / 16 / 16 % 16))
      (Str.hexDigit (n / 16 % 16)) (Str.hexDigit (n % 16)) = some n := by
    rw [hex4, hexVal_hexDigit (by omega), hexVal_hexDigit (by omega), hexVal_hexDigit (by omega),
      hexVal_hexDigit (by omega)]
    have : (((n / 16 / 16 / 16 % 16) * 16 + n / 16 / 16 % 16) * 16 + n / 16 % 16) * 16 + n % 16 =
        n := by omega
    exact congrArg some this
  rw [hdigits]
  simp only [List.cons_append, List.nil_append, scan, hnum]
  cases scan rest <;> rfl

/-- The code points and code units that `escape` writes. -/
def units (c : Char) : List ℕ :=
  if c.toNat < 0x10000 then [c.toNat]
  else [0xd800 + (c.toNat - 0x10000) / 0x400, 0xdc00 + (c.toNat - 0x10000) % 0x400]

/-- A scalar value is not a surrogate. -/
theorem toNat_range (c : Char) :
    c.toNat < 0xd800 ∨ 0xe000 ≤ c.toNat ∧ c.toNat < 0x110000 := by
  rcases c.valid with h | ⟨h, h'⟩
  · exact .inl h
  · exact .inr ⟨h, h'⟩

/-- A character behind a backslash reads back. -/
theorem scan_backslash {e : Char} {n : ℕ} (hu : e ≠ 'u') (he : unescape e = some n)
    (rest : List Char) :
    scan (['\\', e] ++ rest) = (scan rest).map fun p => ([n] ++ p.1, p.2) := by
  rw [List.cons_append, List.cons_append, List.nil_append, scan]
  · rw [he]
    cases scan rest <;> rfl
  · simp [hu]

/-- An escaped character is scanned as its code units. -/
theorem scan_escape (c : Char) (rest : List Char) :
    scan (escape c ++ rest) = (scan rest).map fun p => (units c ++ p.1, p.2) := by
  unfold escape
  split_ifs with hquote hback hn hr ht hf hb hprint hbmp
  · subst hquote
    exact scan_backslash (by decide) rfl rest
  · subst hback
    exact scan_backslash (by decide) rfl rest
  · subst hn
    exact scan_backslash (by decide) rfl rest
  · subst hr
    exact scan_backslash (by decide) rfl rest
  · subst ht
    exact scan_backslash (by decide) rfl rest
  · subst hf
    exact scan_backslash (by decide) rfl rest
  · subst hb
    exact scan_backslash (by decide) rfl rest
  · -- a printable character stands for itself
    have hunits : units c = [c.toNat] := if_pos (by omega)
    rw [hunits, List.cons_append, List.nil_append, scan, if_neg (by omega)]
    · cases scan rest <;> rfl
    · exact hquote
    · simp [hback]
    · simp [hback]
  · have hunits : units c = [c.toNat] := if_pos hbmp
    rw [hunits, scan_unicodeEscape hbmp]
    rfl
  -- beyond the basic plane: two escapes, one for each half of the pair
  · have hunits : units c = [0xd800 + (c.toNat - 0x10000) / 0x400,
        0xdc00 + (c.toNat - 0x10000) % 0x400] := if_neg hbmp
    have hc := toNat_range c
    rw [hunits, List.append_assoc, scan_unicodeEscape (by omega), scan_unicodeEscape (by omega)]
    cases scan rest <;> rfl

/-- A string is scanned up to its closing quote. -/
theorem scan_string (cs rest : List Char) :
    scan (cs.flatMap escape ++ '"' :: rest) = some (cs.flatMap units, rest) := by
  induction cs with
  | nil => rfl
  | cons c cs ih =>
    rw [List.flatMap_cons, List.append_assoc, scan_escape, ih]
    rfl

/-- The code units of a character are joined to it. -/
theorem joinSurrogates_units (c : Char) (us : List ℕ) :
    joinSurrogates (units c ++ us) = (c :: ·) <$> joinSurrogates us := by
  have hc := toNat_range c
  rw [units]
  split
  · have hnot : ¬ (0xd800 ≤ c.toNat ∧ c.toNat < 0xe000) := by omega
    cases us with
    | nil => simp [joinSurrogates, hnot, Char.ofNat_toNat]
    | cons m us =>
      have hnot' : ¬ (0xd800 ≤ c.toNat ∧ c.toNat < 0xdc00 ∧ 0xdc00 ≤ m ∧ m < 0xe000) := by omega
      rw [List.cons_append, List.nil_append, joinSurrogates, if_neg hnot', if_neg hnot,
        Char.ofNat_toNat]
  · have hpair : 0x10000 + (0xd800 + (c.toNat - 0x10000) / 0x400 - 0xd800) * 0x400 +
        (0xdc00 + (c.toNat - 0x10000) % 0x400 - 0xdc00) = c.toNat := by omega
    rw [List.cons_append, List.cons_append, List.nil_append, joinSurrogates,
      if_pos ⟨by omega, by omega, by omega, by omega⟩, hpair, Char.ofNat_toNat]

/-- The code units of a text are joined to the text. -/
theorem joinSurrogates_flatMap (cs : List Char) : joinSurrogates (cs.flatMap units) = some cs := by
  induction cs with
  | nil => rfl
  | cons c cs ih => rw [List.flatMap_cons, joinSurrogates_units, ih]; rfl

/-- One string of a list, and what its reader does with the text after it. -/
theorem readItems_quote (fuel : ℕ) (s : String) (tail : List Char) :
    readItems (fuel + 1) (quote s ++ tail) =
      match skipSpace tail with
      | ']' :: rest => some ([s], rest)
      | ',' :: rest => (readItems fuel rest).map fun p => (s :: p.1, p.2)
      | _ => none := by
  have hquote : quote s ++ tail = '"' :: (s.toList.flatMap escape ++ '"' :: tail) := by
    simp [quote]
  have hskip (text : List Char) : skipSpace ('"' :: text) = '"' :: text := rfl
  rw [hquote, readItems, hskip]
  simp only [scan_string, joinSurrogates_flatMap, Option.bind_eq_bind, Option.bind_some,
    String.ofList_toList]
  split
  · rfl
  · rename_i rest _
    cases readItems fuel rest <;> rfl
  · rfl

/-- The items of a list, read from their text. -/
theorem readItems_commas (s : String) (ss : List String) (rest : List Char) {fuel : ℕ}
    (h : ss.length < fuel) :
    readItems fuel (commas ((s :: ss).map quote) ++ ']' :: rest) = some (s :: ss, rest) := by
  induction ss generalizing s fuel with
  | nil =>
    obtain ⟨fuel, rfl⟩ : ∃ n, fuel = n + 1 := ⟨fuel - 1, by omega⟩
    exact readItems_quote fuel s (']' :: rest)
  | cons s' ss ih =>
    obtain ⟨fuel, rfl⟩ : ∃ n, fuel = n + 1 := ⟨fuel - 1, by omega⟩
    have hspace (text : List Char) : readItems fuel (' ' :: text) = readItems fuel text := by
      cases fuel <;> rfl
    have hcommas : commas ((s :: s' :: ss).map quote) ++ ']' :: rest =
        quote s ++ ',' :: ' ' :: (commas ((s' :: ss).map quote) ++ ']' :: rest) := by
      simp [commas]
    rw [hcommas, readItems_quote]
    have hskip (text : List Char) : skipSpace (',' :: text) = ',' :: text := rfl
    rw [hskip]
    simp only [hspace, ih s' (by simpa using h), Option.map_some]

/-- A list of texts is at least as long in characters as in texts. -/
theorem length_commas (xs : List (List Char)) (h : ∀ x ∈ xs, x ≠ []) :
    xs.length ≤ (commas xs).length := by
  induction xs with
  | nil => simp
  | cons x xs ih =>
    have hx : 0 < x.length := List.length_pos_of_ne_nil (h x (List.mem_cons_self ..))
    have ih := ih fun y hy => h y (List.mem_cons_of_mem _ hy)
    cases xs with
    | nil => simpa [commas, Nat.one_le_iff_ne_zero] using h x
    | cons y ys =>
      simp only [commas, List.length_append, List.length_cons] at ih ⊢
      omega

/-- A list of strings is written as their quotations. -/
theorem writeList_map_str (ss : List String) : writeList (ss.map .str) = ss.map quote := by
  induction ss with
  | nil => rfl
  | cons s ss ih => rw [List.map_cons, writeList, ih]; rfl

/-- A list of strings is read back as it was written. -/
theorem loadsStrings_dumps (ss : List String) :
    loadsStrings (dumps (.list (ss.map .str))) = .ok ss := by
  have hread : readList (write (.list (ss.map .str))) = some (ss, []) := by
    rw [write, writeList_map_str]
    cases ss with
    | nil => rfl
    | cons s ss =>
      obtain ⟨tail, htail⟩ : ∃ tail, commas ((s :: ss).map quote) = '"' :: tail := by
        cases ss <;> exact ⟨_, rfl⟩
      have hskip (text : List Char) : skipSpace ('[' :: text) = '[' :: text := rfl
      have hskip' (text : List Char) : skipSpace ('"' :: text) = '"' :: text := rfl
      have hlen : ss.length < (commas ((s :: ss).map quote) ++ [']']).length := by
        have := length_commas ((s :: ss).map quote) (by simp [quote])
        simp only [List.length_map, List.length_cons, List.length_append] at this ⊢
        omega
      have hitems := readItems_commas s ss [] hlen
      rw [htail] at hitems ⊢
      rw [List.cons_append, readList, hskip]
      simp only [List.cons_append, hskip'] at hitems ⊢
      exact hitems
  rw [loadsStrings, dumps, String.toList_ofList, hread]
  rfl

end Json

end Chen
