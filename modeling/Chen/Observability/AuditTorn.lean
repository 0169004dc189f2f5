import Chen.Observability.AuditCut
import Chen.Observability.AuditRecords

/-!
# A write that was cut short

A `record` call appends to whatever the file ends with, and takes a last line that is no entry for
an empty log. Behind a line that was cut, its entry becomes the rest of that line, which is read by
nothing, and it does not go on from the entries before.
-/

namespace Chen.AuditLog

open AuditEntry

section Torn

variable {F : Type} [JsonFloat F] [Hashlib]

/-- The entry of a call stands on a line of its own, at the end of the file, and it goes on from the
entries `es`. -/
structure Resumes (es : List (AuditEntry F)) (e : AuditEntry F) (file : Option (List Char)) :
    Prop where
  own_line : ∃ line, (lines file).getLast? = some line ∧ fromJsonl line = .ok e
  seq : e.seq = .int es.length
  prevHash : e.prevHash = .str (lastHash es)

/-- The file after the text of a write that was cut short. -/
def cutAfter (file : Option (List Char)) (p : List Char) : Option (List Char) :=
  some (file.getD [] ++ p)

/-- The entry that a call makes behind part of a line: the next one if the line lacks its end only,
and else the first of another chain. -/
def entryBehind (written : AuditEntry F) (seq : ℤ) (p : List Char) (call : AuditCall F) :
    AuditEntry F :=
  if p = written.toJsonl then entryOf (seq + 1) written.computeHash call else entryOf 0 [] call

section Cut

variable {es : List (AuditEntry F)} {file : Option (List Char)} {written : AuditEntry F}
  {p : List Char}

/-- The entry behind a cut is as `record` makes it. -/
theorem Recorded.entryBehind (written : AuditEntry F) (seq : ℤ) (p : List Char)
    (call : AuditCall F) : Recorded (entryBehind written seq p call) := by
  rw [AuditLog.entryBehind]
  split
  · exact ⟨_, _, call, paired_computeHash written, rfl⟩
  · exact ⟨_, _, call, .nil, rfl⟩

omit [Hashlib] in
/-- A cut line does not begin with a space. -/
theorem head?_cut (hp : p <+: written.toJsonl) (hne : p ≠ []) :
    ∃ c ∈ p.head?, TextFile.isSpace c = false := by
  obtain ⟨c, p, rfl⟩ := List.exists_cons_of_ne_nil hne
  obtain ⟨more, hmore⟩ := hp
  obtain ⟨⟨d, hd, hspace⟩, -⟩ := trimmed_toJsonl written
  rw [← hmore] at hd
  exact ⟨d, hd, hspace⟩

/-- The cut line is one more line of the file. -/
theorem lines_cutAfter (h : Holds file es) (hwritten : Recorded written)
    (hp : p <+: written.toJsonl) (hne : p ≠ []) :
    lines (cutAfter file p) = es.map toJsonl ++ [TextFile.strip p] := by
  have hstrip := (TextFile.strip_prefix (head?_cut hp hne)).2
  have hprinted : ∀ c ∈ p, 0x20 ≤ c.toNat := fun c hc => hwritten.line.1 c (hp.subset hc)
  rw [lines, cutAfter, Option.getD_some, h.text, fileOf, TextFile.entryLines_ofLines_append]
  · rw [TextFile.entryLines, TextFile.lines_unended hprinted hne]
    simp [hstrip]
  · exact List.forall_mem_map.mpr fun e he => (h.recorded e he).line.1
  · exact List.forall_mem_map.mpr fun e he => (h.recorded e he).line.2

/-- The last line is an entry only if nothing but its end is missing. -/
theorem lastEntry_cutAfter (h : Holds file es) (hwritten : Recorded written)
    (hp : p <+: written.toJsonl) (hne : p ≠ []) :
    lastEntry (cutAfter file p) = if p = written.toJsonl then some written.reloaded else none := by
  obtain ⟨hstrip, hstripped⟩ := TextFile.strip_prefix (head?_cut hp hne)
  rw [lastEntry, lines_cutAfter h hwritten hp hne, List.getLast?_concat]
  show (fromJsonl (TextFile.strip p)).toOption = _
  split
  · rename_i hfull
    rw [hfull, (trimmed_toJsonl written).strip, hwritten.fromJsonl]
    rfl
  · rename_i hcut
    -- what is stripped off does not complete the line
    have hshort : TextFile.strip p ≠ written.toJsonl := by
      intro heq
      rw [heq] at hstrip
      exact hcut (hp.eq_of_length_le hstrip.length_le)
    obtain ⟨err, herr⟩ := fromJsonl_cut hwritten.plain (.inl rfl) whole_nil (hstrip.trans hp)
      hstripped (.inl hshort)
    rw [List.append_nil] at herr
    rw [herr]
    rfl

/-- The next call makes the entry behind the cut, and writes it directly behind it. -/
theorem record_cutAfter (h : Holds file es) (hwritten : Recorded written) {seq : ℤ}
    (hseq : written.seq = .int seq) (hp : p <+: written.toJsonl) (hne : p ≠ [])
    (call : AuditCall F) :
    record (cutAfter file p) call = .ok (entryBehind written seq p call,
      append (cutAfter file p) (entryBehind written seq p call)) := by
  have hentry : newEntry (lastEntry (cutAfter file p)) call =
      .ok (entryBehind written seq p call) := by
    rw [lastEntry_cutAfter h hwritten hp hne, entryBehind]
    split
    · exact newEntry_reloaded hwritten hseq call
    · exact newEntry_none call
  rw [record, hentry]
  rfl

/-- What was cut and the new entry are one line. -/
theorem lines_append_cutAfter (h : Holds file es) (hwritten : Recorded written)
    (hp : p <+: written.toJsonl) (hne : p ≠ []) {e : AuditEntry F} (he : Recorded e) :
    lines (append (cutAfter file p) e) = es.map toJsonl ++ [p ++ e.toJsonl] := by
  have htext : (append (cutAfter file p) e).getD [] =
      TextFile.ofLines (es.map toJsonl ++ [p ++ e.toJsonl]) := by
    rw [append, Option.getD_some, cutAfter, Option.getD_some, h.text, fileOf, TextFile.ofLines,
      TextFile.ofLines, List.flatMap_append, List.flatMap_singleton]
    simp
  rw [lines, htext]
  apply TextFile.entryLines_ofLines
  · rw [List.forall_mem_append, List.forall_mem_map, List.forall_mem_singleton,
      List.forall_mem_append]
    exact ⟨fun e he => (h.recorded e he).line.1, fun c hc => hwritten.line.1 c (hp.subset hc),
      he.line.1⟩
  · rw [List.forall_mem_append, List.forall_mem_map, List.forall_mem_singleton]
    refine ⟨fun e he => (h.recorded e he).line.2, ?_, ?_⟩
    · obtain ⟨c, hc, hspace⟩ := head?_cut hp hne
      exact ⟨c, List.mem_head?_append_of_mem_head? hc, hspace⟩
    · obtain ⟨c, hc, hspace⟩ := he.line.2.2
      exact ⟨c, List.mem_getLast?_append_of_mem_getLast? hc, hspace⟩

/-- The cut and the entry behind it parse to no entry. -/
theorem fromJsonl_glued (hwritten : Recorded written) (hp : p <+: written.toJsonl) (hne : p ≠ [])
    {e : AuditEntry F} (he : Recorded e) (e' : AuditEntry F) :
    fromJsonl (p ++ e.toJsonl) ≠ .ok e' := by
  have hwhole := whole_toJsonl (loaded_reloaded he.plain)
  rw [toJsonl_reloaded] at hwhole
  obtain ⟨err, herr⟩ := fromJsonl_cut hwritten.plain (torn_toJsonl e) hwhole hp hne
    (.inr (trimmed_toJsonl e).ne_nil)
  rw [herr]
  exact nofun

/-- The log does not go on from its last entry. -/
theorem not_resumes (h : Holds file es) (hwritten : Recorded written) (hp : p <+: written.toJsonl)
    (hne : p ≠ []) {e : AuditEntry F} (he : Recorded e) :
    ¬ Resumes es e (append (cutAfter file p) e) := by
  rintro ⟨⟨line, hline, hparse⟩, -, -⟩
  rw [lines_append_cutAfter h hwritten hp hne he, List.getLast?_concat] at hline
  cases hline
  exact fromJsonl_glued hwritten hp hne he e hparse

end Cut

omit [Hashlib] in
/-- The line of an entry begins with a brace. -/
theorem brace_opens (e : AuditEntry F) : ['\x7b'] <+: e.toJsonl :=
  ⟨_, rfl⟩

omit [Hashlib] in
/-- The brace is not all of it. -/
theorem brace_is_cut (e : AuditEntry F) : ['\x7b'] ≠ e.toJsonl :=
  nofun

/-- After any series of calls and part of one line more, the next call returns an entry that no line
of the file is read as: the log is never taken up. Unless only the end of the line was missing, the
entry is the first of another chain. -/
theorem record_after_cut {file : Option (List Char)} (hfile : file = none ∨ file = some [])
    (calls : List (AuditCall F)) (torn next : AuditCall F) :
    ∃ es file₁ written file₂, recordAll file calls = .ok (es, file₁) ∧
      record file₁ torn = .ok (written, file₂) ∧
      ∀ p, p ≠ [] → p <+: written.toJsonl →
        ∃ e file₃, record (cutAfter file₁ p) next = .ok (e, file₃) ∧
          lines file₃ = lines file₁ ++ [p ++ e.toJsonl] ∧
          (∀ e' : AuditEntry F, fromJsonl (p ++ e.toJsonl) ≠ .ok e') ∧
          (p ≠ written.toJsonl → e = entryOf 0 [] next) ∧
          ¬ Resumes es e file₃ := by
  obtain ⟨es, file₁, hall, hholds, -⟩ := recordAll_of_holds (holds_nil hfile) calls
  rw [List.nil_append] at hholds
  obtain ⟨hrecord, hholds'⟩ := record_of_holds hholds torn
  have hwritten : Recorded (entryOf es.length (lastHash es) torn) :=
    hholds'.recorded _ (by simp)
  refine ⟨es, file₁, _, _, hall, hrecord, fun p hne hp => ?_⟩
  have he := Recorded.entryBehind (entryOf es.length (lastHash es) torn) es.length p next
  refine ⟨_, _, record_cutAfter hholds hwritten rfl hp hne next, ?_,
    fromJsonl_glued hwritten hp hne he, fun hcut => if_neg hcut,
    not_resumes hholds hwritten hp hne he⟩
  rw [lines_append_cutAfter hholds hwritten hp hne he, lines_fileOf hholds.recorded hholds.text]

end Torn

section Examples

local instance tornFloats : JsonFloat ℕ := .tenths

local instance tornDigests : Hashlib := .checksum

/-- A call with a prompt and an output, for the examples. -/
def tornCall : AuditCall ℕ := { runId := [], prompt := "p", output := "o", time := 5 }

/-- A log of whose first entry a brace was written. -/
theorem record_after_brace : ∃ (e : AuditEntry ℕ) (file₃ : Option (List Char)),
    record (cutAfter none ['\x7b']) tornCall = .ok (e, file₃) ∧ ¬ Resumes [] e file₃ := by
  obtain ⟨es, file₁, written, file₂, hall, hrecord, hcut⟩ :=
    record_after_cut (F := ℕ) (.inl rfl) [] tornCall tornCall
  cases hall
  cases hrecord
  obtain ⟨e, file₃, hnext, -, -, -, hnot⟩ := hcut ['\x7b'] (List.cons_ne_nil _ _) (brace_opens _)
  exact ⟨e, file₃, hnext, hnot⟩

/-- The log is empty, and only the first brace of its first entry was written. -/
theorem torn_write_loses_record : ¬ ∀ (calls : List (AuditCall ℕ)) (torn next : AuditCall ℕ)
    (es : List (AuditEntry ℕ)) file₁ (written : AuditEntry ℕ) file₂ p,
    recordAll none calls = .ok (es, file₁) → record file₁ torn = .ok (written, file₂) →
      p ≠ [] → p <+: written.toJsonl → p ≠ written.toJsonl →
        ∃ e file₃, record (cutAfter file₁ p) next = .ok (e, file₃) ∧ Resumes es e file₃ := by
  intro hall
  have hholds : Holds none ([] : List (AuditEntry ℕ)) := holds_nil (.inl rfl)
  have hwritten : Recorded (entryOf 0 [] tornCall) := ⟨0, [], tornCall, .nil, rfl⟩
  have hp : ['\x7b'] <+: (entryOf 0 [] tornCall).toJsonl := brace_opens _
  have hne : ['\x7b'] ≠ [] := List.cons_ne_nil _ _
  obtain ⟨e, file₃, hrecord, hresumes⟩ := hall [] tornCall tornCall [] none _ _ ['\x7b'] rfl
    (record_of_holds hholds tornCall).1 hne hp (brace_is_cut _)
  rw [record_cutAfter hholds hwritten rfl hp hne] at hrecord
  cases hrecord
  exact not_resumes hholds hwritten hp hne (Recorded.entryBehind _ _ _ _) hresumes

end Examples

end Chen.AuditLog
