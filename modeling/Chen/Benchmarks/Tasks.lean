import Mathlib.Data.List.DropRight
import Chen.Library.Numerals
import Chen.Python.FindAll
import Mathlib.Data.List.Infix

/-!
# The grader of GSM8K

`_gsm8k_grader` looks for the expected number among the numerals of the output, less the commas, and
after that for its text anywhere in the output. Both look at spellings, and not at numbers.
-/

namespace Chen

/-- `s.split()`. -/
def Str.split [Unicode] (s : String) : List String :=
  ((s.toList.splitOnP Unicode.isSpace).filter (· ≠ [])).map String.ofList

/-- `s.replace(",", "")`. -/
def Str.withoutCommas (s : String) : String := String.ofList (s.toList.filter (· ≠ ','))

section

variable [Unicode]

namespace Re

/-- `[\d,]+\.?\d*`. -/
def outNum : Re :=
  seq (plus (chr fun c => Unicode.isDigit c || c = ',')) (seq (opt (chr (· = '.'))) (star digit))

end Re

/-- `_gsm8k_grader`. -/
def gsm8kGrader (output expected : String) : ℚ :=
  let expected := Str.strip expected
  if expected = "" then 0
  else
    let nums := Str.split (Str.withoutCommas expected)
    let target := nums.getLast?.getD expected
    let outNums := Re.outNum.findall (Str.withoutCommas output)
    if target ∈ outNums then 1
    else if target.toList <:+: output.toList then 1
    else 0

/-! ## The numerals that are found -/

namespace Re

/-- Where there is no comma, the class of the pattern is that of the digits. -/
theorem digit_or_comma {text : List Char} (hcomma : ',' ∉ text) {c : Char} (hc : c ∈ text) :
    (Unicode.isDigit c || decide (c = ',')) = Unicode.isDigit c := by
  have hne : c ≠ ',' := ne_of_mem_of_not_mem hc hcomma
  rw [decide_eq_false hne, Bool.or_false]

/-- Without commas, the commas of the pattern match nothing. -/
theorem dropWhile_digit_or_comma {text : List Char} (hcomma : ',' ∉ text) :
    text.dropWhile (fun c => Unicode.isDigit c || decide (c = ',')) =
      text.dropWhile Unicode.isDigit := by
  induction text with
  | nil => rfl
  | cons c cs ih =>
    rw [List.dropWhile_cons, List.dropWhile_cons, digit_or_comma hcomma List.mem_cons_self,
      ih fun h => hcomma (List.mem_cons_of_mem c h)]

/-- A match is a maximal numeral. -/
theorem leaves_outNum {c : Char} {cs : List Char} (hc : Unicode.isDigit c)
    (hcomma : ',' ∉ c :: cs) :
    outNum.Leaves (c :: cs)
      (Numerals.behindFraction Unicode.isDigit '.' ((c :: cs).dropWhile Unicode.isDigit)) := by
  have hwhole : (plus (chr fun c => Unicode.isDigit c || c = ',')).Leaves (c :: cs)
      ((c :: cs).dropWhile Unicode.isDigit) := by
    rw [← dropWhile_digit_or_comma hcomma]
    exact leaves_plus_chr (by rw [hc, Bool.true_or])
  have hstop := List.dropWhile_idempotent Unicode.isDigit (c :: cs)
  refine hwhole.seq ?_
  generalize (c :: cs).dropWhile Unicode.isDigit = text at hstop
  cases text with
  | nil => exact (leaves_opt_neg (by simp)).seq (leaves_star_chr [])
  | cons d ds =>
    have hstar := leaves_star_chr (p := Unicode.isDigit) (d :: ds)
    rw [hstop] at hstar
    rw [Numerals.behindFraction]
    split
    next hd => exact (leaves_opt_pos (decide_eq_true hd)).seq (leaves_star_chr ds)
    next hd => exact (leaves_opt_neg (by simpa using hd)).seq hstar

/-- Without commas, the pattern finds the numerals of a text. -/
theorem findallFrom_outNum {text : List Char} (hcomma : ',' ∉ text) (skip : ℕ)
    (prev : Option Char) :
    outNum.findallFrom skip prev text = Numerals.numeralsFrom Unicode.isDigit '.' skip text := by
  induction text generalizing skip prev with
  | nil => cases skip <;> rfl
  | cons c cs ih =>
    have hcomma' : ',' ∉ cs := fun h => hcomma (List.mem_cons_of_mem c h)
    cases skip with
    | succ skip => exact ih hcomma' skip (some c)
    | zero =>
      rw [Numerals.numeralsFrom]
      split
      next hc =>
        rw [findallFrom_of_leaves (leaves_outNum hc hcomma) (Numerals.numeral_append _), ih hcomma']
      next hc =>
        have hclass : ¬(Unicode.isDigit c || decide (c = ',')) := by
          rwa [digit_or_comma hcomma List.mem_cons_self]
        have hnone : outNum.tries ⟨prev, c :: cs⟩ = [] := by
          rw [outNum, tries, plus, tries, tries_chr_neg hclass]
          rfl
        rw [findallFrom_of_none hnone, ih hcomma']

end Re

/-- The maximal numerals of an output, less its commas. -/
def outputNumerals (output : String) : List (List Char) :=
  Numerals.numerals Unicode.isDigit '.' (Str.withoutCommas output).toList

omit [Unicode] in
/-- No comma is left once they are removed. -/
theorem Str.comma_notMem_withoutCommas (s : String) : ',' ∉ (Str.withoutCommas s).toList := by
  simp [Str.withoutCommas]

/-- The pattern finds the numerals of an output. -/
theorem findall_outNum (output : String) :
    Re.outNum.findall (Str.withoutCommas output) = (outputNumerals output).map String.ofList := by
  rw [Re.findall, Re.findallFrom_outNum (Str.comma_notMem_withoutCommas output)]
  rfl

/-! ## The number that is expected -/

/-- What holds of the digits of the database. -/
structure Unicode.PlainDigits : Prop where
  not_space : ∀ c, Unicode.isDigit c → ¬Unicode.isSpace c
  sign_not_space : ∀ c ∈ ['+', '-'], ¬Unicode.isSpace c
  not_mark : ∀ c ∈ [',', '.', '+', '-'], ¬Unicode.isDigit c

/-- The text that is looked for, if it is one word: the expected answer, less spaces around it and
commas. -/
def spelling (expected : String) : String := Str.withoutCommas (Str.strip expected)

/-- The expected answer is a decimal integer: a sign or none, and digits. -/
def DenotesInt (decimal : Char → ℕ) (expected : String) (z : ℤ) : Prop :=
  ∃ sign digits, (spelling expected).toList = sign ++ digits ∧ digits ≠ [] ∧
    (∀ c ∈ digits, Unicode.isDigit c) ∧
    ((sign = [] ∨ sign = ['+']) ∧ z = Numerals.natValue decimal digits ∨
      sign = ['-'] ∧ z = -Numerals.natValue decimal digits)

/-- A numeral of the output denotes the number. -/
def ShowsNumber (decimal : Char → ℕ) (output : String) (z : ℤ) : Prop :=
  ∃ n ∈ outputNumerals output, Numerals.value '.' decimal n = z

variable {decimal : Char → ℕ} {output expected : String} {z : ℤ}

/-- An output whose only numeral has another value does not show the number. -/
theorem ShowsNumber.not_of_singleton {n : List Char} (h : outputNumerals output = [n])
    (hn : Numerals.value '.' decimal n ≠ z) : ¬ShowsNumber decimal output z := by
  rintro ⟨m, hm, hvalue⟩
  rw [h, List.mem_singleton] at hm
  exact hn (hm ▸ hvalue)

/-- A text without spaces is one word. -/
theorem Str.split_of_forall {s : String} (hne : s ≠ "") (hs : ∀ c ∈ s.toList, ¬Unicode.isSpace c) :
    Str.split s = [s] := by
  have hsingle : s.toList.splitOnP Unicode.isSpace = [s.toList] :=
    List.splitOnP_eq_singleton fun c hc => Bool.eq_false_iff.mpr (hs c hc)
  have hlist : s.toList ≠ [] := fun h => hne (String.toList_eq_nil_iff.mp h)
  rw [Str.split, hsingle]
  simp [hlist]

namespace DenotesInt

variable (h : DenotesInt decimal expected z)

include h

/-- A number is spelled in some characters. -/
theorem spelling_ne : spelling expected ≠ "" := by
  obtain ⟨sign, digits, hs, hne, -⟩ := h
  intro hnil
  rw [hnil] at hs
  exact hne (List.append_eq_nil_iff.mp hs.symm).2

/-- An expected number is not blank. -/
theorem strip_ne : Str.strip expected ≠ "" := by
  intro hnil
  refine h.spelling_ne ?_
  rw [spelling, hnil]
  rfl

/-- No space stands in the spelling of a number. -/
theorem not_space (hlaws : Unicode.PlainDigits) (c : Char) (hc : c ∈ (spelling expected).toList) :
    ¬Unicode.isSpace c := by
  obtain ⟨sign, digits, hs, -, hdigits, hsign⟩ := h
  rw [hs, List.mem_append] at hc
  rcases hc with hc | hc
  · refine hlaws.sign_not_space c ?_
    rcases hsign with ⟨rfl | rfl, -⟩ | ⟨rfl, -⟩
    · cases hc
    · exact List.mem_cons.mpr (.inl (List.mem_singleton.mp hc))
    · exact List.mem_cons_of_mem _ hc
  · exact hlaws.not_space c (hdigits c hc)

/-- The grader looks for the answer's spelling. -/
theorem grader_eq (hlaws : Unicode.PlainDigits) (output : String) :
    gsm8kGrader output expected =
      if (spelling expected).toList ∈ outputNumerals output then 1
      else if (spelling expected).toList <:+: output.toList then 1
      else 0 := by
  have htarget : (Str.split (spelling expected)).getLast?.getD (Str.strip expected) =
      spelling expected := by
    rw [Str.split_of_forall h.spelling_ne (h.not_space hlaws)]
    rfl
  have hmem : spelling expected ∈ (outputNumerals output).map String.ofList ↔
      (spelling expected).toList ∈ outputNumerals output := by
    simp [List.mem_map, ← String.toList_inj]
  have hspelling : Str.withoutCommas (Str.strip expected) = spelling expected := rfl
  simp only [gsm8kGrader, if_neg h.strip_ne, hspelling, htarget, findall_outNum, hmem]

/-- A numeral with the spelling of the answer denotes it. -/
theorem showsNumber (hlaws : Unicode.PlainDigits)
    (hmem : (spelling expected).toList ∈ outputNumerals output) : ShowsNumber decimal output z := by
  refine ⟨_, hmem, ?_⟩
  obtain ⟨c, cs, hcons, hc⟩ := Numerals.head_of_mem_numerals hmem
  obtain ⟨sign, digits, hs, -, hdigits, hsign⟩ := h
  -- a numeral has no sign in front
  have hplain (mark : Char) (hmark : mark ∈ [',', '.', '+', '-']) (hsign : sign = [mark]) :
      False := by
    rw [hs, hsign] at hcons
    cases hcons
    exact hlaws.not_mark _ hmark hc
  rcases hsign with ⟨rfl | hsign, rfl⟩ | ⟨hsign, -⟩
  · rw [hs, List.nil_append,
      Numerals.value_of_digits hdigits (hlaws.not_mark '.' (by decide))]
    rfl
  · exact (hplain '+' (by decide) hsign).elim
  · exact (hplain '-' (by decide) hsign).elim

end DenotesInt

/-- What is credited: the spelling of the answer as a numeral or anywhere else in the output. What
is not: an output that neither shows the number nor has the spelling in it. -/
theorem gsm8kGrader_credits (hlaws : Unicode.PlainDigits) (hz : DenotesInt decimal expected z)
    (output : String) :
    ((spelling expected).toList ∈ outputNumerals output ∨
        (spelling expected).toList <:+: output.toList → gsm8kGrader output expected = 1) ∧
      (¬ShowsNumber decimal output z → ¬(spelling expected).toList <:+: output.toList →
        gsm8kGrader output expected = 0) := by
  rw [hz.grader_eq hlaws]
  constructor
  · rintro (hmem | hinfix)
    · rw [if_pos hmem]
    · rw [if_pos hinfix, ite_self]
  · intro hshows hinfix
    rw [if_neg fun hmem => hshows (hz.showsNumber hlaws hmem), if_neg hinfix]

end

/-! ## Texts of ASCII characters -/

/-- ASCII has plain digits. -/
theorem Unicode.ascii_plainDigits : letI := Unicode.ascii; Unicode.PlainDigits :=
  letI := Unicode.ascii
  { not_space := by
      intro c (hc : c.isDigit) (hspace : c.isWhitespace)
      have hblank : ((c = ' ' ∨ c = '\t') ∨ c = '\r') ∨ c = '\n' := by
        simpa [Char.isWhitespace] using hspace
      rcases hblank with ((rfl | rfl) | rfl) | rfl <;> revert hc <;> decide
    sign_not_space := by
      simp only [List.forall_mem_cons, List.not_mem_nil, false_imp_iff, implies_true, and_true]
      decide
    not_mark := by
      simp only [List.forall_mem_cons, List.not_mem_nil, false_imp_iff, implies_true, and_true]
      decide }

/-- The value of an ASCII digit. -/
def asciiDecimal (c : Char) : ℕ := c.toNat - '0'.toNat

/-- A numeral of five digits. -/
theorem denotesInt_seventyThousand : @DenotesInt .ascii asciiDecimal "70000" 70000 :=
  ⟨[], "70000".toList, by decide, by decide, List.all_eq_true.mp (by decide),
    .inl ⟨.inl rfl, by decide⟩⟩

/-- An answer with a comma is credited, and another number is not. -/
theorem gsm8kGrader_credits_seventyThousand :
    @gsm8kGrader .ascii "The answer is 70,000" "70000" = 1 ∧
      @gsm8kGrader .ascii "42" "70000" = 0 := by
  have hnumerals : @outputNumerals .ascii "42" = [['4', '2']] := by decide
  have hother : ¬@ShowsNumber .ascii asciiDecimal "42" 70000 :=
    @ShowsNumber.not_of_singleton .ascii _ _ _ _ hnumerals (by decide +kernel)
  have hcredits :=
    @gsm8kGrader_credits .ascii _ _ _ Unicode.ascii_plainDigits denotesInt_seventyThousand
  exact ⟨(hcredits "The answer is 70,000").1 (.inl (by decide)),
    (hcredits "42").2 hother (by decide)⟩

/-- A number with the digits of the answer in it is credited, and the answer before a full stop is
not. -/
theorem gsm8kGrader_not_exact :
    ¬(∀ output expected z, @DenotesInt .ascii asciiDecimal expected z →
        @gsm8kGrader .ascii output expected = 1 → @ShowsNumber .ascii asciiDecimal output z) ∧
      ¬(∀ output expected z, @DenotesInt .ascii asciiDecimal expected z →
        ¬@ShowsNumber .ascii asciiDecimal output z → @gsm8kGrader .ascii output expected = 0) ∧
      ¬(∀ output expected z, @DenotesInt .ascii asciiDecimal expected z →
        @ShowsNumber .ascii asciiDecimal output z → @gsm8kGrader .ascii output expected = 1) := by
  have heighteen : @DenotesInt .ascii asciiDecimal "18" 18 :=
    ⟨[], "18".toList, by decide, by decide, List.all_eq_true.mp (by decide),
      .inl ⟨.inl rfl, by decide⟩⟩
  have hcredited : @gsm8kGrader .ascii "118" "18" = 1 := by decide
  have hnumerals : @outputNumerals .ascii "118" = [['1', '1', '8']] := by decide
  have hinside : ¬@ShowsNumber .ascii asciiDecimal "118" 18 :=
    @ShowsNumber.not_of_singleton .ascii _ _ _ _ hnumerals (by decide +kernel)
  have hmissed : @gsm8kGrader .ascii "70,000." "70000" = 0 := by decide
  have hstop : @ShowsNumber .ascii asciiDecimal "70,000." 70000 :=
    ⟨"70000.".toList, by decide, by decide +kernel⟩
  refine ⟨fun h => hinside (h _ _ _ heighteen hcredited), fun h => ?_, fun h => ?_⟩
  · have hzero := h _ _ _ heighteen hinside
    rw [hcredited] at hzero
    exact one_ne_zero hzero
  · have hone := h _ _ _ denotesInt_seventyThousand hstop
    rw [hmissed] at hone
    exact zero_ne_one hone

end Chen
