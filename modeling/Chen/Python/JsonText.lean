import Chen.Python.JsonValue

/-!
# The text of strings and numbers

A string reads back from its text with every surrogate pair joined, an integer as it was, and
neither text holds a control character.
-/

namespace Chen

/-! ## Strings -/

namespace CodePoint

/-- The code units of a code point. -/
def units (c : CodePoint) : List ℕ :=
  if c.val < 0x10000 then [c.val]
  else [0xd800 + (c.val - 0x10000) / 0x400, 0xdc00 + (c.val - 0x10000) % 0x400]

/-- A code point that is a character keeps its number. -/
theorem toNat_ofNat {n : ℕ} (h : n.isValidChar) : (Char.ofNat n).toNat = n := by
  rw [Char.ofNat, dif_pos h]
  rfl

/-- A code point that is no surrogate is that of a character. -/
theorem toNat_ofNat_val {c : CodePoint} (h : ¬ (c.IsHigh ∨ c.IsLow)) :
    (Char.ofNat c.val).toNat = c.val := by
  have hc := c.isLt
  simp only [IsHigh, IsLow] at h
  apply toNat_ofNat
  by_cases hlow : c.val < 0xd800
  · exact .inl hlow
  · exact .inr ⟨by omega, hc⟩

/-- An escaped code point reads back as its units. -/
theorem scan_escape (c : CodePoint) (rest : List Char) :
    Json.scan (c.escape ++ rest) = (Json.scan rest).map fun p => (c.units ++ p.1, p.2) := by
  rw [escape]
  split
  · rename_i hsurrogate
    have hc : c.val < 0x10000 := by
      simp only [IsHigh, IsLow] at hsurrogate
      omega
    rw [Json.scan_unicodeEscape hc, units, if_pos hc]
    rfl
  · rename_i hscalar
    rw [Json.scan_escape, Json.units, toNat_ofNat_val hscalar]
    rfl

/-- A pair is escaped like the code point it stands for. -/
theorem escape_joined {c c' : CodePoint} (h : c.IsHigh) (h' : c'.IsLow) :
    (c.joined c').escape = c.escape ++ c'.escape := by
  obtain ⟨hlo, hhi⟩ := h
  obtain ⟨hlo', hhi'⟩ := h'
  have hval : (c.joined c').val =
      0x10000 + (c.val - 0xd800) * 0x400 + (c'.val - 0xdc00) := by
    rw [joined, Fin.val_ofNat]
    omega
  have hscalar : ¬ ((c.joined c').IsHigh ∨ (c.joined c').IsLow) := by
    simp only [IsHigh, IsLow]
    omega
  have htoNat := toNat_ofNat_val hscalar
  have hc : c.escape = Json.unicodeEscape c.val := if_pos (.inl ⟨hlo, hhi⟩)
  have hc' : c'.escape = Json.unicodeEscape c'.val := if_pos (.inr ⟨hlo', hhi'⟩)
  rw [hc, hc', escape, if_neg hscalar]
  generalize Char.ofNat (c.joined c').val = d at htoNat
  -- the character is beyond the basic plane, so that it is written by its units
  have hne : ∀ e : Char, e.toNat < 0x10000 → d ≠ e := by
    rintro e he rfl
    omega
  have hhigh : 0xd800 + (d.toNat - 0x10000) / 0x400 = c.val := by omega
  have hlow : 0xdc00 + (d.toNat - 0x10000) % 0x400 = c'.val := by omega
  rw [Json.escape, if_neg (hne _ (by decide)), if_neg (hne _ (by decide)),
    if_neg (hne _ (by decide)), if_neg (hne _ (by decide)), if_neg (hne _ (by decide)),
    if_neg (hne _ (by decide)), if_neg (hne _ (by decide)), if_neg (by omega), if_neg (by omega),
    hhigh, hlow]

end CodePoint

namespace PyStr

/-- A character keeps its number as a code point. -/
theorem val_ofNat_toNat (c : Char) : (Fin.ofNat 0x110000 c.toNat : CodePoint).val = c.toNat := by
  have hc := Json.toNat_range c
  rw [Fin.val_ofNat]
  omega

/-- No surrogates, and hence no pairs. -/
theorem paired_ofString (s : String) : (ofString s).Paired := by
  have hscalar (c : Char) : ¬ CodePoint.IsHigh (Fin.ofNat 0x110000 c.toNat) := by
    have hc := Json.toNat_range c
    rw [CodePoint.IsHigh, val_ofNat_toNat]
    omega
  rw [ofString]
  induction s.toList with
  | nil => exact .nil
  | cons c cs ih =>
    cases cs with
    | nil => exact .singleton _
    | cons d cs => exact List.isChain_cons_cons.mpr ⟨fun h => hscalar c h.1, ih⟩

/-- Different strings have different code points. -/
theorem ofString_injective : Function.Injective ofString := by
  intro s t h
  have hinj : Function.Injective fun c : Char => (Fin.ofNat 0x110000 c.toNat : CodePoint) := by
    intro c d hcd
    have hval := congrArg Fin.val hcd
    rw [val_ofNat_toNat, val_ofNat_toNat] at hval
    rw [← Char.ofNat_toNat c, hval, Char.ofNat_toNat]
  exact String.toList_injective (List.map_injective_iff.mpr hinj h)

/-- A text without surrogate pairs stays as it is. -/
theorem joinPairs_of_paired {s : PyStr} (h : s.Paired) : joinPairs s = s := by
  fun_induction joinPairs s with
  | case1 => rfl
  | case2 c => rfl
  | case3 c c' s hpair ih => exact absurd hpair (List.isChain_cons_cons.mp h).1
  | case4 c c' s hpair ih => rw [ih (List.isChain_cons_cons.mp h).2]

/-- The first code point is the one that was there, or that of a pair. -/
theorem head?_joinPairs (c : CodePoint) (s : PyStr) {d : CodePoint}
    (h : (joinPairs (c :: s)).head? = some d) : d = c ∨ ¬ d.IsLow := by
  cases s with
  | nil =>
    left
    simpa [joinPairs, eq_comm] using h
  | cons c' s =>
    rw [joinPairs] at h
    split at h
    · rename_i hpair
      obtain ⟨⟨hlo, hhi⟩, ⟨hlo', hhi'⟩⟩ := hpair
      right
      rw [List.head?_cons, Option.some.injEq] at h
      rw [← h]
      simp only [CodePoint.IsLow, CodePoint.joined, Fin.val_ofNat]
      omega
    · left
      simpa [eq_comm] using h

/-- No pair is left. -/
theorem paired_joinPairs (s : PyStr) : (joinPairs s).Paired := by
  fun_induction joinPairs s with
  | case1 => exact .nil
  | case2 c => exact .singleton c
  | case3 c c' s hpair ih =>
    obtain ⟨⟨hlo, hhi⟩, ⟨hlo', hhi'⟩⟩ := hpair
    have hhigh : ¬ (c.joined c').IsHigh := by
      simp only [CodePoint.IsHigh, CodePoint.joined, Fin.val_ofNat]
      omega
    cases hs : joinPairs s with
    | nil => exact .singleton _
    | cons d t =>
      rw [hs] at ih
      exact List.isChain_cons_cons.mpr ⟨fun hboth => hhigh hboth.1, ih⟩
  | case4 c c' s hpair ih =>
    cases hs : joinPairs (c' :: s) with
    | nil => exact .singleton _
    | cons d t =>
      have hd := head?_joinPairs c' s (d := d) (by rw [hs]; rfl)
      rw [hs] at ih
      refine List.isChain_cons_cons.mpr ⟨?_, ih⟩
      rintro ⟨hhigh, hlow⟩
      rcases hd with rfl | hd
      · exact hpair ⟨hhigh, hlow⟩
      · exact hd hlow

/-- Joining pairs does not change the text of a string. -/
theorem quote_joinPairs (s : PyStr) : (joinPairs s).quote = s.quote := by
  have hescape : (joinPairs s).flatMap CodePoint.escape = s.flatMap CodePoint.escape := by
    fun_induction joinPairs s with
    | case1 => rfl
    | case2 c => rfl
    | case3 c c' s hpair ih =>
      simp only [List.flatMap_cons, ih, CodePoint.escape_joined hpair.1 hpair.2,
        List.append_assoc]
    | case4 c c' s hpair ih =>
      rw [List.flatMap_cons, ih, ← List.flatMap_cons]
  rw [quote, quote, hescape]

/-- A quoted text is scanned as its code units. -/
theorem scan_escaped (s : PyStr) (rest : List Char) :
    Json.scan (s.flatMap CodePoint.escape ++ '"' :: rest) =
      some (s.flatMap CodePoint.units, rest) := by
  induction s with
  | nil => rfl
  | cons c s ih =>
    rw [List.flatMap_cons, List.append_assoc, CodePoint.scan_escape, ih]
    rfl

/-- The code units of a code point, as code points, before some others. -/
theorem joinPairs_units (c : CodePoint) (us : PyStr)
    (h : ∀ u ∈ us.head?, ¬ (c.IsHigh ∧ u.IsLow)) :
    joinPairs (c.units.map (Fin.ofNat _) ++ us) = c :: joinPairs us := by
  have hc := c.isLt
  rw [CodePoint.units]
  split
  · have hself : (Fin.ofNat 0x110000 c.val : CodePoint) = c := Fin.ofNat_val_eq_self c
    rw [List.map_singleton, hself]
    cases us with
    | nil => rfl
    | cons u us => rw [List.singleton_append, joinPairs, if_neg (h u rfl)]
  · have hhigh : (Fin.ofNat 0x110000 (0xd800 + (c.val - 0x10000) / 0x400) : CodePoint).val =
        0xd800 + (c.val - 0x10000) / 0x400 := by
      rw [Fin.val_ofNat]
      omega
    have hlow : (Fin.ofNat 0x110000 (0xdc00 + (c.val - 0x10000) % 0x400) : CodePoint).val =
        0xdc00 + (c.val - 0x10000) % 0x400 := by
      rw [Fin.val_ofNat]
      omega
    have hjoined : CodePoint.joined (Fin.ofNat _ (0xd800 + (c.val - 0x10000) / 0x400))
        (Fin.ofNat _ (0xdc00 + (c.val - 0x10000) % 0x400)) = c := by
      apply Fin.ext
      rw [CodePoint.joined, hhigh, hlow, Fin.val_ofNat]
      omega
    rw [List.map_cons, List.map_singleton, List.cons_append, List.singleton_append, joinPairs,
      if_pos, hjoined]
    constructor
    · rw [CodePoint.IsHigh, hhigh]
      omega
    · rw [CodePoint.IsLow, hlow]
      omega

/-- The first code unit of a string is low only if its first code point is. -/
theorem head?_units {c u : CodePoint} {us : PyStr}
    (h : u ∈ (c.units.map (Fin.ofNat 0x110000) ++ us).head?) (hlow : u.IsLow) : u = c := by
  have hc := c.isLt
  rw [CodePoint.units] at h
  split at h
  · rw [List.map_singleton, List.singleton_append, List.head?_cons, Option.mem_some_iff] at h
    rw [← h]
    exact Fin.ofNat_val_eq_self c
  · rw [List.map_cons, List.cons_append, List.head?_cons, Option.mem_some_iff] at h
    rw [← h, CodePoint.IsLow, Fin.val_ofNat] at hlow
    omega

/-- A text and its code units are joined to one text. -/
theorem joinPairs_flatMap_units (s : PyStr) :
    joinPairs ((s.flatMap CodePoint.units).map (Fin.ofNat _)) = joinPairs s := by
  fun_induction joinPairs s with
  | case1 => rfl
  | case2 c =>
    rw [List.flatMap_singleton, ← List.append_nil (List.map _ _)]
    exact joinPairs_units c [] (by simp)
  | case3 c c' s hpair ih =>
    obtain ⟨⟨hlo, hhi⟩, ⟨hlo', hhi'⟩⟩ := hpair
    have hunits : c.units = [c.val] := if_pos (by omega)
    have hunits' : c'.units = [c'.val] := if_pos (by omega)
    have hself (d : CodePoint) : (Fin.ofNat 0x110000 d.val : CodePoint) = d :=
      Fin.ofNat_val_eq_self d
    rw [List.flatMap_cons, List.flatMap_cons, hunits, hunits', List.singleton_append,
      List.singleton_append, List.map_cons, List.map_cons, hself, hself, joinPairs,
      if_pos ⟨⟨hlo, hhi⟩, ⟨hlo', hhi'⟩⟩, ih]
  | case4 c c' s hpair ih =>
    rw [List.flatMap_cons, List.map_append, joinPairs_units, ih]
    rw [List.flatMap_cons, List.map_append]
    rintro u hu ⟨hhigh, hlow⟩
    cases head?_units hu hlow
    exact hpair ⟨hhigh, hlow⟩

end PyStr

/-! ## Numbers -/

namespace Json

/-- A number ends here. -/
def Stops (rest : List Char) : Prop := ∀ c ∈ rest.head?, numberChar c = false

/-- A number stops in front of a character that cannot belong to it. -/
theorem stops_cons {c : Char} (h : numberChar c = false) (rest : List Char) :
    Stops (c :: rest) := by
  intro d hd
  cases hd
  exact h

/-- A token is cut off where its characters stop. -/
theorem takeWhile_append_stop {p : Char → Bool} {token rest : List Char}
    (htoken : ∀ c ∈ token, p c = true) (hrest : ∀ c ∈ rest.head?, p c = false) :
    (token ++ rest).takeWhile p = token ∧ (token ++ rest).dropWhile p = rest := by
  have hstop : rest.takeWhile p = [] ∧ rest.dropWhile p = rest := by
    cases rest with
    | nil => exact ⟨rfl, rfl⟩
    | cons c rest => simp [hrest c rfl]
  rw [List.takeWhile_append_of_pos htoken, List.dropWhile_append_of_pos htoken, hstop.1, hstop.2,
    List.append_nil]
  exact ⟨rfl, rfl⟩

/-- The digits of a number are digits. -/
theorem isDigit_toDigits {n : ℕ} {c : Char} (h : c ∈ Nat.toDigits 10 n) : c.isDigit = true :=
  Nat.isDigit_of_mem_toDigits (by decide) (by decide) h

/-- A positive number does not begin with a zero. -/
theorem head?_toDigits {n : ℕ} (h : 0 < n) : (Nat.toDigits 10 n).head? ≠ some '0' := by
  induction n using Nat.strongRecOn with
  | ind n ih =>
    rw [Nat.toDigits_eq_if (by decide)]
    split
    · rename_i hlt
      have hall : ∀ m < 10, 0 < m → [m.digitChar].head? ≠ some '0' := by decide
      exact hall n hlt h
    · rw [List.head?_append_of_ne_nil _ Nat.toDigits_ne_nil]
      exact ih (n / 10) (by omega) (by omega)

/-- A number has digits. -/
theorem isDigits_toDigits (n : ℕ) : isDigits (Nat.toDigits 10 n) = true := by
  rw [isDigits, List.all_eq_true.mpr fun c => isDigit_toDigits]
  simp [Nat.toDigits_ne_nil]

/-- The digits of a natural number are those of an integer without a sign. -/
theorem natural_toDigits (n : ℕ) : (isDigits (Nat.toDigits 10 n) &&
    (Nat.toDigits 10 n = ['0'] || (Nat.toDigits 10 n).head? ≠ some '0')) = true := by
  rw [isDigits_toDigits]
  rcases Nat.eq_zero_or_pos n with rfl | hpos
  · rfl
  · simpa using Or.inr (head?_toDigits hpos)

/-- The digits of a number do not begin with a sign. -/
theorem head?_toDigits_ne_sign (n : ℕ) : (Nat.toDigits 10 n).head? ≠ some '-' := by
  intro h
  have hmem : '-' ∈ Nat.toDigits 10 n := List.mem_of_mem_head? h
  exact absurd (isDigit_toDigits hmem) (by decide)

/-- An integer is written as one. -/
theorem isInt_intText (n : ℤ) : isInt (intText n) = true := by
  cases n with
  | ofNat n =>
    rw [intText, isInt, if_neg (head?_toDigits_ne_sign n)]
    exact natural_toDigits n
  | negSucc n => exact natural_toDigits (n + 1)

/-- The text of an integer has its value. -/
theorem intOfText_intText (n : ℤ) : intOfText (intText n) = n := by
  cases n with
  | ofNat n =>
    rw [intText, intOfText, if_neg (head?_toDigits_ne_sign n), Nat.ofDigitChars_ten_toDigits]
    rfl
  | negSucc n =>
    rw [intText, intOfText, if_pos List.head?_cons, List.tail_cons, Nat.ofDigitChars_ten_toDigits]
    rfl

/-- An integer is written with digits and a sign. -/
theorem mem_intText {n : ℤ} {c : Char} (h : c ∈ intText n) : c.isDigit = true ∨ c = '-' := by
  cases n with
  | ofNat n => exact .inl (isDigit_toDigits h)
  | negSucc n =>
    rcases List.mem_cons.mp h with rfl | h
    · exact .inr rfl
    · exact .inl (isDigit_toDigits h)

/-- The text of an integer is not that of a float. -/
theorem isFloat_intText (n : ℤ) : isFloat (intText n) = false := by
  have hall : ∀ c ∈ intText n, (c.isDigit || decide (c = '-')) = true := by
    intro c hc
    simpa using mem_intText hc
  have hdrop : (intText n).dropWhile (fun c => c.isDigit || decide (c = '-')) = [] := by
    rw [← List.append_nil (intText n), List.dropWhile_append_of_pos hall]
    rfl
  rw [isFloat, hdrop]
  simp [isExponent]

/-- An integer is written in characters of numbers. -/
theorem numberChar_intText {n : ℤ} {c : Char} (h : c ∈ intText n) : numberChar c = true := by
  rcases mem_intText h with hdigit | rfl
  · simp [numberChar, hdigit]
  · decide

end Json

/-! ## Printed text -/

namespace Json

/-- No control character, and hence no end of a line. -/
def Printed (text : List Char) : Prop := ∀ c ∈ text, 0x20 ≤ c.toNat

instance (text : List Char) : Decidable (Printed text) :=
  decidable_of_iff (text.all fun c => 0x20 ≤ c.toNat) (by simp [Printed])

/-- A text has no control characters if its first character is none and its rest has none. -/
theorem printed_cons {c : Char} {text : List Char} :
    Printed (c :: text) ↔ 0x20 ≤ c.toNat ∧ Printed text :=
  List.forall_mem_cons

/-- Two texts without control characters have none when they are joined. -/
theorem printed_append {text text' : List Char} :
    Printed (text ++ text') ↔ Printed text ∧ Printed text' :=
  List.forall_mem_append

/-- Commas are no control characters. -/
theorem printed_commas {texts : List (List Char)} (h : ∀ text ∈ texts, Printed text) :
    Printed (commas texts) := by
  induction texts with
  | nil => exact List.forall_mem_nil _
  | cons text texts ih =>
    obtain ⟨htext, htexts⟩ := List.forall_mem_cons.mp h
    cases texts with
    | nil => exact htext
    | cons text' texts =>
      show Printed (text ++ ',' :: ' ' :: commas (text' :: texts))
      rw [printed_append, printed_cons, printed_cons]
      exact ⟨htext, by decide, by decide, ih htexts⟩

/-- Hexadecimal digits are no control characters. -/
theorem printed_hexPad (digits n : ℕ) : Printed (Str.hexPad digits n) := by
  have hdigit (n : ℕ) : 0x20 ≤ (Str.hexDigit n).toNat := by
    by_cases hn : n < 16
    · have hall : ∀ n < 16, 0x20 ≤ (Str.hexDigit n).toNat := by decide
      exact hall n hn
    · have hlen : (String.toList "0123456789abcdef").length ≤ n := by
        have : (String.toList "0123456789abcdef").length = 16 := by decide
        omega
      rw [Str.hexDigit, List.getD, List.getElem?_eq_none hlen]
      decide
  induction digits generalizing n with
  | zero => exact List.forall_mem_nil _
  | succ digits ih =>
    rw [Str.hexPad, printed_append, printed_cons]
    exact ⟨ih (n / 16), hdigit _, List.forall_mem_nil _⟩

/-- An escape is written without control characters. -/
theorem printed_unicodeEscape (n : ℕ) : Printed (unicodeEscape n) := by
  rw [unicodeEscape, printed_cons, printed_cons]
  exact ⟨by decide, by decide, printed_hexPad 4 n⟩

/-- A code point is escaped without control characters. -/
theorem printed_escape (c : CodePoint) : Printed c.escape := by
  have hpair (e : Char) (he : 0x20 ≤ e.toNat) : Printed ['\\', e] :=
    printed_cons.mpr ⟨by decide, printed_cons.mpr ⟨he, List.forall_mem_nil _⟩⟩
  rw [CodePoint.escape]
  split
  · exact printed_unicodeEscape c.val
  · rw [Json.escape]
    split_ifs with hquote hback hn hr ht hf hb hprint hbmp
    · exact hpair _ (by decide)
    · exact hpair _ (by decide)
    · exact hpair _ (by decide)
    · exact hpair _ (by decide)
    · exact hpair _ (by decide)
    · exact hpair _ (by decide)
    · exact hpair _ (by decide)
    · exact printed_cons.mpr ⟨hprint.1, List.forall_mem_nil _⟩
    · exact printed_unicodeEscape _
    · exact printed_append.mpr ⟨printed_unicodeEscape _, printed_unicodeEscape _⟩

/-- A quoted text has no control characters. -/
theorem printed_quote (s : PyStr) : Printed s.quote := by
  rw [PyStr.quote, printed_append, printed_cons]
  refine ⟨⟨by decide, ?_⟩, by simp [Printed]⟩
  intro d hd
  obtain ⟨c, -, hdc⟩ := List.mem_flatMap.mp hd
  exact printed_escape c d hdc

/-- Numbers are written without control characters. -/
theorem printed_of_numberChar {text : List Char} (h : ∀ c ∈ text, numberChar c = true) :
    Printed text := by
  intro c hc
  have hnumber := h c hc
  simp only [numberChar, Bool.or_eq_true, decide_eq_true_eq] at hnumber
  rcases hnumber with ((((hdigit | rfl) | rfl) | rfl) | rfl) | rfl
  · have hzero : 48 ≤ c.toNat := (Char.isDigit_iff_toNat.mp hdigit).1
    omega
  · decide
  · decide
  · decide
  · decide
  · decide

end Json

/-! ## Floats for examples -/

/-- Non-negative numbers with one digit behind the point, counted in tenths. -/
@[reducible] def JsonFloat.tenths : JsonFloat ℕ where
  repr n := Nat.toDigits 10 (n / 10) ++ ['.', (n % 10).digitChar]
  ofText cs := Nat.ofDigitChars 10 (cs.filter Char.isDigit) 0
  addOne n := n + 10
  eqInt n k := n = 10 * k
  eq n m := n = m
  isFloatText_repr n := by
    have hlast : (n % 10).digitChar.isDigit = true := by
      have hall : ∀ m < 10, m.digitChar.isDigit = true := by decide
      exact hall _ (Nat.mod_lt _ (by decide))
    have hnumber (c : Char) (hc : c.isDigit = true) : Json.numberChar c = true := by
      simp [Json.numberChar, hc]
    right
    constructor
    · rw [List.all_append, Bool.and_eq_true, List.all_eq_true]
      exact ⟨fun c hc => hnumber c (Json.isDigit_toDigits hc), by
        simp [Json.numberChar]; omega⟩
    · have hdigits : ∀ c ∈ Nat.toDigits 10 (n / 10),
          (c.isDigit || decide (c = '-')) = true := by
        intro c hc
        simp [Json.isDigit_toDigits hc]
      have hpoint : ∀ c ∈ ['.', (n % 10).digitChar].head?,
          (c.isDigit || decide (c = '-')) = false := by
        simp
      obtain ⟨htake, hdrop⟩ := Json.takeWhile_append_stop
        (p := fun c => c.isDigit || decide (c = '-')) hdigits hpoint
      have hint := Json.isInt_intText (.ofNat (n / 10))
      rw [Json.intText] at hint
      rw [Json.isFloat, htake, hdrop, hint]
      simp [Json.isDigits, hlast]
  ofText_repr n := by
    have hlast : (n % 10).digitChar.isDigit = true := by
      have hall : ∀ m < 10, m.digitChar.isDigit = true := by decide
      exact hall _ (Nat.mod_lt _ (by decide))
    have hpoint : Char.isDigit '.' = false := by decide
    have hdigits : (Nat.toDigits 10 (n / 10)).filter Char.isDigit = Nat.toDigits 10 (n / 10) :=
      List.filter_eq_self.mpr fun c => Json.isDigit_toDigits
    rw [List.filter_append, hdigits, List.filter_cons_of_neg (by simp [hpoint]),
      List.filter_cons_of_pos hlast, List.filter_nil, Nat.ofDigitChars_append,
      Nat.ofDigitChars_ten_toDigits,
      Nat.ofDigitChars_cons_digitChar_of_lt_ten (Nat.mod_lt _ (by decide)), Nat.ofDigitChars_nil]
    omega

end Chen
