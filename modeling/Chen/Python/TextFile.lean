import Mathlib.Data.List.TakeWhile

/-!
# Text files

The text of a file, its lines as `for line in f` reads them, and `str.strip`. Every one of `\n`,
`\r` and `\r\n` ends a line, as it does in a file that is opened as text.
-/

namespace Chen.TextFile

/-- `str.isspace`, for one character. -/
def isSpace (c : Char) : Bool :=
  let n := c.toNat
  (9 ≤ n && n ≤ 13) || (0x1c ≤ n && n ≤ 0x20) || n = 0x85 || n = 0xa0 || n = 0x1680 ||
    (0x2000 ≤ n && n ≤ 0x200a) || n = 0x2028 || n = 0x2029 || n = 0x202f || n = 0x205f ||
    n = 0x3000

/-- `line.strip()`. -/
def strip (line : List Char) : List Char :=
  ((line.dropWhile isSpace).reverse.dropWhile isSpace).reverse

/-- The lines of a text, without their ends. -/
def lines : List Char → List (List Char)
  | [] => []
  | '\r' :: '\n' :: text => [] :: lines text
  | '\n' :: text => [] :: lines text
  | '\r' :: text => [] :: lines text
  | c :: text =>
    match lines text with
    | [] => [[c]]
    | line :: more => (c :: line) :: more

/-- The lines that are not blank, stripped. -/
def entryLines (text : List Char) : List (List Char) :=
  ((lines text).map strip).filter fun line => !line.isEmpty

/-- A text of whole lines. -/
def ofLines (ls : List (List Char)) : List Char := ls.flatMap (· ++ ['\n'])

/-- A line of printed characters, up to its end. -/
theorem lines_line {line : List Char} (h : ∀ c ∈ line, 0x20 ≤ c.toNat) (text : List Char) :
    lines (line ++ '\n' :: text) = line :: lines text := by
  induction line with
  | nil => rfl
  | cons c line ih =>
    obtain ⟨hc, hline⟩ := List.forall_mem_cons.mp h
    have hn : c ≠ '\n' := by
      rintro rfl
      exact absurd hc (by decide)
    have hr : c ≠ '\r' := by
      rintro rfl
      exact absurd hc (by decide)
    rw [List.cons_append, lines, ih hline]
    · exact fun _ h _ => hr h
    · exact hn
    · exact hr

/-- White space at neither end. -/
def Trimmed (line : List Char) : Prop :=
  (∃ c ∈ line.head?, isSpace c = false) ∧ ∃ c ∈ line.getLast?, isSpace c = false

/-- A trimmed line is not empty. -/
theorem Trimmed.ne_nil {line : List Char} (h : Trimmed line) : line ≠ [] := by
  rintro rfl
  obtain ⟨⟨c, hc, -⟩, -⟩ := h
  cases hc

/-- White space is looked for in vain before a character that is none. -/
theorem dropWhile_isSpace {line : List Char} (h : ∃ c ∈ line.head?, isSpace c = false) :
    line.dropWhile isSpace = line := by
  obtain ⟨c, hc, hspace⟩ := h
  cases line with
  | nil => rfl
  | cons d line =>
    cases hc
    exact List.dropWhile_cons_of_neg (by simp [hspace])

/-- A trimmed line has nothing to strip. -/
theorem Trimmed.strip {line : List Char} (h : Trimmed line) : strip line = line := by
  obtain ⟨hhead, d, hd, hspace'⟩ := h
  have hfront := dropWhile_isSpace hhead
  have hback : line.reverse.dropWhile isSpace = line.reverse :=
    dropWhile_isSpace ⟨d, List.getLast?_eq_head?_reverse ▸ hd, hspace'⟩
  rw [TextFile.strip, hfront, hback, List.reverse_reverse]

/-- A line that begins with no white space keeps its beginning. -/
theorem strip_prefix {line : List Char} (h : ∃ c ∈ line.head?, isSpace c = false) :
    strip line <+: line ∧ strip line ≠ [] := by
  rw [strip, dropWhile_isSpace h]
  obtain ⟨c, hc, hspace⟩ := h
  constructor
  · have hsuffix := List.reverse_prefix.mpr (List.dropWhile_suffix (l := line.reverse) isSpace)
    rwa [List.reverse_reverse] at hsuffix
  · rw [Ne, List.reverse_eq_nil_iff, List.dropWhile_eq_nil_iff]
    intro hall
    have hmem : c ∈ line.reverse := List.mem_reverse.mpr (List.mem_of_mem_head? hc)
    rw [hall c hmem] at hspace
    cases hspace

/-- A line of printed characters at the end of a text, without an end of its own. -/
theorem lines_unended {line : List Char} (h : ∀ c ∈ line, 0x20 ≤ c.toNat) (hne : line ≠ []) :
    lines line = [line] := by
  induction line with
  | nil => exact absurd rfl hne
  | cons c line ih =>
    obtain ⟨hc, hline⟩ := List.forall_mem_cons.mp h
    have hn : c ≠ '\n' := by
      rintro rfl
      exact absurd hc (by decide)
    have hr : c ≠ '\r' := by
      rintro rfl
      exact absurd hc (by decide)
    rw [lines]
    · cases line with
      | nil => rfl
      | cons d line => rw [ih hline (List.cons_ne_nil _ _)]
    · exact fun _ h _ => hr h
    · exact hn
    · exact hr

/-- Whole lines are read as they were written, and the rest of the text behind them. -/
theorem entryLines_ofLines_append {ls : List (List Char)}
    (hprinted : ∀ line ∈ ls, ∀ c ∈ line, 0x20 ≤ c.toNat) (htrimmed : ∀ line ∈ ls, Trimmed line)
    (text : List Char) : entryLines (ofLines ls ++ text) = ls ++ entryLines text := by
  induction ls with
  | nil => rfl
  | cons line ls ih =>
    obtain ⟨hline, hls⟩ := List.forall_mem_cons.mp hprinted
    obtain ⟨htrim, htrims⟩ := List.forall_mem_cons.mp htrimmed
    have hne : (!line.isEmpty) = true := by simpa using htrim.ne_nil
    have hrest := ih hls htrims
    rw [entryLines] at hrest
    have htext : ofLines (line :: ls) ++ text = line ++ '\n' :: (ofLines ls ++ text) := by
      simp [ofLines]
    rw [entryLines, htext, lines_line hline, List.map_cons, htrim.strip, List.filter_cons,
      if_pos hne, hrest, List.cons_append]

/-- The lines of a file are read as they were written. -/
theorem entryLines_ofLines {ls : List (List Char)}
    (hprinted : ∀ line ∈ ls, ∀ c ∈ line, 0x20 ≤ c.toNat) (htrimmed : ∀ line ∈ ls, Trimmed line) :
    entryLines (ofLines ls) = ls := by
  have happend := entryLines_ofLines_append hprinted htrimmed []
  rw [List.append_nil] at happend
  rw [happend]
  exact List.append_nil ls

end Chen.TextFile
