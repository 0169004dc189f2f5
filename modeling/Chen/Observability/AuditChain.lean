import Chen.Library.HashChain
import Chen.Observability.AuditEntries

/-!
# What `verify` checks

`verify` accepts a log exactly when its lines are entries that pass its checks one after the other,
each against the number and the hash of the one before it.
-/

namespace Chen.AuditLog

open AuditEntry

variable {F : Type} [JsonFloat F]

/-- All the entries of a log. -/
def entries (file : Option (List Char)) : Except Exn (List (AuditEntry F)) :=
  (lines file).mapM fromJsonl

/-- The last `count()` entries are all of them. -/
theorem tail_count (file : Option (List Char)) :
    tail (F := F) file (count file) = entries file := by
  rw [tail, count, sliceFrom, entries]
  split
  · rename_i hnonneg
    have hempty : (lines file).length = 0 := by omega
    rw [List.length_eq_zero_iff.mp hempty]
    rfl
  · simp

/-- A log that is read has one entry for each line. -/
theorem forall₂_of_entries {file : Option (List Char)} {es : List (AuditEntry F)}
    (h : entries file = .ok es) :
    List.Forall₂ (fun line e => fromJsonl line = .ok e) (lines file) es :=
  Effect.except_mapM_eq_ok.mp h

/-- The entries that are read have values as `json.loads` returns them. -/
theorem loaded_of_entries {file : Option (List Char)} {es : List (AuditEntry F)}
    (h : entries file = .ok es) : ∀ e ∈ es, e.Loaded := by
  have hall := forall₂_of_entries h
  clear h
  generalize lines file = ls at hall
  induction hall with
  | nil => simp
  | cons hline _ ih => exact List.forall_mem_cons.mpr ⟨loaded_of_fromJsonl hline, ih⟩

/-- The last entry that is read is that of the last line. -/
theorem lastEntry_of_entries {file : Option (List Char)} {es : List (AuditEntry F)}
    (h : entries file = .ok es) : lastEntry file = es.getLast? := by
  have hall := forall₂_of_entries h
  rw [lastEntry]
  clear h
  generalize lines file = ls at hall
  induction hall with
  | nil => rfl
  | @cons line e ls es hline hrest ih =>
    cases hrest with
    | nil =>
      show (fromJsonl line).toOption = some e
      rw [hline]
      rfl
    | cons hline' hrest =>
      rw [List.getLast?_cons_cons, List.getLast?_cons_cons]
      exact ih

/-! ## What `verify` checks -/

omit [JsonFloat F] in
/-- A value is compared with a string. -/
theorem isStr_iff {s : PyStr} {v : JsonValue F} : isStr s v = true ↔ v = .str s := by
  cases v <;> simp [isStr]

omit [JsonFloat F] in
/-- A slice that is taken for a report never makes the log verified. -/
theorem slice16_ne_true (v : JsonValue F) :
    (slice16 v >>= fun _ => pure false : Except Exn Bool) ≠ .ok true := by
  cases v <;> exact nofun

section

variable [Hashlib]

/-- What `verify` checks of the entries, one after the other. -/
def Chained : PyStr → AuditSeq F → List (AuditEntry F) → Prop
  | _, _, [] => True
  | prevHash, prevSeq, e :: es =>
    ∃ seq, AuditSeq.ofValue e.seq = some seq ∧ seq.equals prevSeq.next = true ∧
      e.prevHash = .str prevHash ∧ e.entryHash = .str e.computeHash ∧
      Chained e.computeHash seq es

omit [Hashlib] in
/-- A line that is no entry is caught as one that does not parse. -/
theorem isParseError_of_fromJsonl (line : List Char) :
    ∀ x, fromJsonl (F := F) line = .error x → isParseError x = true := by
  have hargument : ∀ items name x, argument (F := F) items name = .error x →
      isParseError x = true := by
    intro items name x h
    unfold argument at h
    split at h
    · cases h
    · cases h
      decide
  refine Effect.except_bind_raises (fun x h => ?_) fun value x h => ?_
  · unfold JsonValue.loads at h
    split at h
    · split at h
      · cases h
      · cases h
        decide
    · cases h
      decide
  · split at h
    · rw [ofKeywords] at h
      split at h
      · cases h
        decide
      · revert x
        -- one argument for each field
        iterate 7 refine Effect.except_bind_raises (hargument _ _) fun _ => ?_
        intro x h
        cases h
    · cases h
      decide

/-- One round of the loop, where no limit is hit. -/
theorem verifyLines_cons {line : List Char} {rest : List (List Char)} {prevHash : PyStr}
    {prevSeq : AuditSeq F} :
    verifyLines (line :: rest) prevHash prevSeq =
      match fromJsonl (F := F) line with
      | .error _ => .ok false
      | .ok entry =>
        match AuditSeq.ofValue entry.seq with
        | none => .ok false
        | some seq =>
          if !seq.equals prevSeq.next then .ok false
          else if !isStr prevHash entry.prevHash then do
            slice16 entry.prevHash
            pure false
          else if !isStr entry.computeHash entry.entryHash then do
            slice16 entry.entryHash
            pure false
          else verifyLines rest entry.computeHash seq := by
  rw [verifyLines, verifyLinesWithin]
  cases hline : fromJsonl (F := F) line with
  | error x => exact if_pos (isParseError_of_fromJsonl line x hline)
  | ok entry => rfl

/-- One round of the loop of `verify`. -/
theorem verifyLines_cons_eq_true {line : List Char} {rest : List (List Char)} {prevHash : PyStr}
    {prevSeq : AuditSeq F} :
    verifyLines (line :: rest) prevHash prevSeq = .ok true ↔
      ∃ e seq, fromJsonl (F := F) line = .ok e ∧ AuditSeq.ofValue e.seq = some seq ∧
        seq.equals prevSeq.next = true ∧ e.prevHash = .str prevHash ∧
        e.entryHash = .str e.computeHash ∧ verifyLines rest e.computeHash seq = .ok true := by
  constructor
  · intro h
    rw [verifyLines_cons] at h
    split at h
    · cases h
    · rename_i e hline
      split at h
      · cases h
      · rename_i seq hseq
        -- a check that fails answers something else
        split_ifs at h with hnumber hprev hhash
        · cases h
        · exact absurd h (slice16_ne_true e.prevHash)
        · exact absurd h (slice16_ne_true e.entryHash)
        · simp only [Bool.not_eq_true', Bool.not_eq_false] at hnumber hprev hhash
          exact ⟨e, seq, hline, hseq, hnumber, isStr_iff.mp hprev, isStr_iff.mp hhash, h⟩
  · rintro ⟨e, seq, hline, hseq, hnumber, hprev, hhash, hrest⟩
    rw [verifyLines_cons, hline]
    simp only [hseq, hnumber, isStr_iff.mpr hprev, isStr_iff.mpr hhash]
    exact hrest

/-- Lines are verified if each parses and the entries are chained. -/
theorem verifyLines_eq_true {ls : List (List Char)} {prevHash : PyStr} {prevSeq : AuditSeq F} :
    verifyLines ls prevHash prevSeq = .ok true ↔
      ∃ es, List.Forall₂ (fun line e => fromJsonl (F := F) line = .ok e) ls es ∧
        Chained prevHash prevSeq es := by
  induction ls generalizing prevHash prevSeq with
  | nil =>
    constructor
    · exact fun _ => ⟨[], .nil, trivial⟩
    · exact fun _ => rfl
  | cons line ls ih =>
    rw [verifyLines_cons_eq_true]
    constructor
    · rintro ⟨e, seq, hline, hseq, hnumber, hprev, hhash, hrest⟩
      obtain ⟨es, hes, hchained⟩ := ih.mp hrest
      exact ⟨e :: es, .cons hline hes, seq, hseq, hnumber, hprev, hhash, hchained⟩
    · rintro ⟨es, hes, hchained⟩
      cases hes with
      | @cons _ e _ es hline hes =>
        obtain ⟨seq, hseq, hnumber, hprev, hhash, hrest⟩ := hchained
        exact ⟨e, seq, hline, hseq, hnumber, hprev, hhash, ih.mpr ⟨es, hes, hrest⟩⟩

/-- A log is verified if it is read and its entries are chained from the beginning. -/
theorem verify_eq_true {file : Option (List Char)} :
    verify F file = .ok true ↔
      ∃ es : List (AuditEntry F), entries file = .ok es ∧ Chained [] (.int (-1)) es := by
  simp only [verify, verifyLines_eq_true, entries, Effect.except_mapM_eq_ok]

/-- Entries that passed the checks are linked, each with a hash of its own. -/
theorem Chained.linked {es : List (AuditEntry F)} {prevHash : PyStr} {prevSeq : AuditSeq F}
    (h : Chained prevHash prevSeq es) :
    HashChain.Linked (fun e => .str e.computeHash) AuditEntry.prevHash (.str prevHash) es ∧
      ∀ e ∈ es, e.entryHash = .str e.computeHash := by
  induction es generalizing prevHash prevSeq with
  | nil => exact ⟨trivial, by simp⟩
  | cons e es ih =>
    obtain ⟨seq, -, -, hprev, hhash, hrest⟩ := h
    obtain ⟨hlinked, hhashes⟩ := ih hrest
    exact ⟨⟨hprev, hlinked⟩, List.forall_mem_cons.mpr ⟨hhash, hhashes⟩⟩

end

end Chen.AuditLog
