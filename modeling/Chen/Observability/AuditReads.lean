import Chen.Observability.AuditRecords

/-!
# Reading a log

`verify` answers on every text but one where it stops at a line that a limit of the interpreter stops,
or at an entry whose hash it takes a slice of and that has none. `tail` returns the last entries of a log, or all of them when it is asked for none.
-/

namespace Chen.AuditLog

open AuditEntry

/-! ## The report of `verify` -/

section Report

variable {F : Type} [JsonFloat F] [Hashlib]

/-- Values that Python takes a slice of. -/
def Sliceable : JsonValue F → Prop
  | .str _ => True
  | .list _ => True
  | _ => False

omit [JsonFloat F] [Hashlib] in
/-- A slice is taken of strings and lists alone. -/
theorem slice16_returns_iff {v : JsonValue F} :
    (∃ b, (slice16 v >>= fun _ => pure false : Except Exn Bool) = .ok b) ↔ Sliceable v := by
  cases v with
  | str s => exact ⟨fun _ => trivial, fun _ => ⟨false, rfl⟩⟩
  | list xs => exact ⟨fun _ => trivial, fun _ => ⟨false, rfl⟩⟩
  | _ => exact ⟨nofun, False.elim⟩

/-- The hash that the entry after these has to name. -/
def hashAfter (prevHash : PyStr) (es : List (AuditEntry F)) : PyStr :=
  es.foldl (fun _ e => e.computeHash) prevHash

omit [Hashlib] in
/-- The number that the entry after these has to follow. -/
def seqAfter (prevSeq : AuditSeq F) (es : List (AuditEntry F)) : AuditSeq F :=
  es.foldl (fun seq e => (AuditSeq.ofValue e.seq).getD seq) prevSeq

omit [JsonFloat F] [Hashlib] in
/-- The number behind some entries is that of the last. -/
theorem seqAfter_cons {e : AuditEntry F} {seq : AuditSeq F}
    (h : AuditSeq.ofValue e.seq = some seq) (prevSeq : AuditSeq F) (es : List (AuditEntry F)) :
    seqAfter prevSeq (e :: es) = seqAfter seq es := by
  rw [seqAfter, List.foldl_cons, h, Option.getD_some, seqAfter]

variable (limits : AuditLimits F)

/-- What `from_jsonl` makes of a line. -/
def readLine (line : List Char) : Except Exn (AuditEntry F) :=
  within (limits.loads line) (fromJsonl line)

/-- The lines are entries that pass all checks, and hit no limit. -/
structure Passed (prevHash : PyStr) (prevSeq : AuditSeq F) (ls : List (List Char))
    (es : List (AuditEntry F)) : Prop where
  read : List.Forall₂ (fun line e => readLine limits line = .ok e) ls es
  computed : ∀ e ∈ es, limits.computeHash e = none
  chained : Chained prevHash prevSeq es

/-- The number of the entry is the next one, and then its `prev_hash` is none that can be sliced, or
it is the right one, and the hash hits a limit or `entry_hash` is none that can be sliced. -/
def Unreportable (prevHash : PyStr) (prevSeq : AuditSeq F) (e : AuditEntry F) : Prop :=
  (∃ seq, AuditSeq.ofValue e.seq = some seq ∧ seq.equals prevSeq.next = true) ∧
    (¬ Sliceable e.prevHash ∨ e.prevHash = .str prevHash ∧
      (limits.computeHash e ≠ none ∨ ¬ Sliceable e.entryHash))

/-- The loop gets past the line: what is raised is caught, and an entry can be reported. -/
structure Answered (prevHash : PyStr) (prevSeq : AuditSeq F) (line : List Char) : Prop where
  caught : ∀ x, readLine limits line = .error x → isParseError x = true
  reportable : ∀ e, readLine limits line = .ok e → ¬ Unreportable limits prevHash prevSeq e

variable {limits}

/-- One round of the loop returns if the line is answered and, where all checks pass, the other
rounds return. -/
theorem verifyLinesWithin_cons_returns_iff {line : List Char} {rest : List (List Char)}
    {prevHash : PyStr} {prevSeq : AuditSeq F} :
    (∃ b, verifyLinesWithin limits (line :: rest) prevHash prevSeq = .ok b) ↔
      Answered limits prevHash prevSeq line ∧
        ∀ e, Passed limits prevHash prevSeq [line] [e] →
          ∃ b, verifyLinesWithin limits rest e.computeHash
            ((AuditSeq.ofValue e.seq).getD prevSeq) = .ok b := by
  rw [verifyLinesWithin]
  cases hline : within (limits.loads line) (fromJsonl (F := F) line) with
  | error x =>
    have hanswered : Answered limits prevHash prevSeq line ↔ isParseError x = true := by
      constructor
      · exact fun h => h.caught x hline
      · intro hcaught
        refine ⟨fun x' hx' => ?_, fun e he => ?_⟩
        · cases hline.symm.trans hx'
          exact hcaught
        · cases hline.symm.trans he
    have hpassed : ∀ e, ¬ Passed limits prevHash prevSeq [line] [e] := by
      rintro e ⟨hread, -, -⟩
      cases hread with
      | cons he _ => cases hline.symm.trans he
    rw [hanswered]
    simp only [hpassed, false_implies, implies_true, and_true]
    split_ifs with hcaught
    · simp [hcaught]
    · simp [hcaught]
  | ok e =>
    have hread : readLine limits line = .ok e := hline
    have hanswered : Answered limits prevHash prevSeq line ↔
        ¬ Unreportable limits prevHash prevSeq e := by
      constructor
      · exact fun h => h.reportable e hread
      · intro hreportable
        refine ⟨fun x hx => ?_, fun e' he' => ?_⟩
        · cases hread.symm.trans hx
        · cases hread.symm.trans he'
          exact hreportable
    have hpassed : ∀ e', Passed limits prevHash prevSeq [line] [e'] ↔
        e' = e ∧ limits.computeHash e = none ∧ Chained prevHash prevSeq [e] := by
      intro e'
      constructor
      · rintro ⟨hread', hcomputed, hchained⟩
        cases hread' with
        | cons he' _ =>
          cases hread.symm.trans he'
          exact ⟨rfl, hcomputed e (List.mem_singleton_self e), hchained⟩
      · rintro ⟨rfl, hcomputed, hchained⟩
        exact ⟨.cons hread .nil, List.forall_mem_singleton.mpr hcomputed, hchained⟩
    simp only [hanswered, hpassed, and_imp, forall_eq]
    cases hseq : AuditSeq.ofValue e.seq with
    | none =>
      refine ⟨fun _ => ⟨?_, ?_⟩, fun _ => ⟨false, rfl⟩⟩
      · rintro ⟨⟨seq, hseq', -⟩, -⟩
        rw [hseq] at hseq'
        cases hseq'
      · rintro - ⟨seq, hseq', -⟩
        rw [hseq] at hseq'
        cases hseq'
    | some seq =>
      have hchained : Chained prevHash prevSeq [e] ↔ seq.equals prevSeq.next = true ∧
          e.prevHash = .str prevHash ∧ e.entryHash = .str e.computeHash := by
        simp [Chained, hseq]
      have hreport : Unreportable limits prevHash prevSeq e ↔ seq.equals prevSeq.next = true ∧
          (¬ Sliceable e.prevHash ∨ e.prevHash = .str prevHash ∧
            (limits.computeHash e ≠ none ∨ ¬ Sliceable e.entryHash)) := by
        simp [Unreportable, hseq]
      rw [hchained, hreport, Option.getD_some]
      dsimp only
      split_ifs with hnumber hprev
      · rw [Bool.not_eq_true'] at hnumber
        simp [hnumber]
      · -- the hash of the entry before is another one, and is reported
        rw [Bool.not_eq_true', ← Bool.not_eq_true, isStr_iff] at hprev
        rw [Bool.not_eq_true', Bool.not_eq_false] at hnumber
        rw [slice16_returns_iff]
        simp [hnumber, hprev]
      · rw [Bool.not_eq_true', Bool.not_eq_false] at hnumber
        rw [Bool.not_eq_true', Bool.not_eq_false, isStr_iff] at hprev
        rw [hprev]
        cases hlimit : limits.computeHash e with
        | some x =>
          -- the hash hits a limit
          refine iff_of_false ?_ fun h => h.1 ⟨hnumber, .inr ⟨rfl, .inl (Option.some_ne_none x)⟩⟩
          rintro ⟨b, hb⟩
          cases hb
        | none =>
          show (∃ b, (if (!isStr e.computeHash e.entryHash) = true then do
            slice16 e.entryHash
            pure false
          else verifyLinesWithin limits rest e.computeHash seq) = .ok b) ↔ _
          split_ifs with hhash
          · rw [Bool.not_eq_true', ← Bool.not_eq_true, isStr_iff] at hhash
            rw [slice16_returns_iff]
            simp [hnumber, hhash, Sliceable]
          · rw [Bool.not_eq_true', Bool.not_eq_false, isStr_iff] at hhash
            rw [hhash]
            simp [hnumber, Sliceable]

/-- Lines pass if the first one does and the rest pass behind it. -/
theorem Passed.cons_iff {line : List Char} {ls : List (List Char)} {e : AuditEntry F}
    {es : List (AuditEntry F)} {prevHash : PyStr} {prevSeq : AuditSeq F} :
    Passed limits prevHash prevSeq (line :: ls) (e :: es) ↔
      Passed limits prevHash prevSeq [line] [e] ∧
        Passed limits e.computeHash ((AuditSeq.ofValue e.seq).getD prevSeq) ls es := by
  constructor
  · rintro ⟨hread, hcomputed, seq, hseq, hnumber, hprev, hhash, hrest⟩
    obtain ⟨he, hes⟩ := List.forall_mem_cons.mp hcomputed
    cases hread with
    | cons hline hls =>
      rw [hseq, Option.getD_some]
      exact ⟨⟨.cons hline .nil, List.forall_mem_singleton.mpr he, seq, hseq, hnumber, hprev, hhash,
        trivial⟩, hls, hes, hrest⟩
  · rintro ⟨⟨hread, hcomputed, seq, hseq, hnumber, hprev, hhash, -⟩, hls, hes, hrest⟩
    rw [hseq, Option.getD_some] at hrest
    cases hread with
    | cons hline _ =>
      refine ⟨.cons hline hls, List.forall_mem_cons.mpr ⟨?_, hes⟩, seq, hseq, hnumber, hprev, hhash,
        hrest⟩
      exact hcomputed e (List.mem_singleton_self e)

/-- The loop returns if no line that it reaches raises. -/
theorem verifyLinesWithin_returns_iff {ls : List (List Char)} {prevHash : PyStr}
    {prevSeq : AuditSeq F} :
    (∃ b, verifyLinesWithin limits ls prevHash prevSeq = .ok b) ↔
      ∀ before line after es, ls = before ++ line :: after →
        Passed limits prevHash prevSeq before es →
        Answered limits (hashAfter prevHash es) (seqAfter prevSeq es) line := by
  induction ls generalizing prevHash prevSeq with
  | nil =>
    refine ⟨fun _ before line after es hls => ?_, fun _ => ⟨true, rfl⟩⟩
    simp at hls
  | cons first ls ih =>
    rw [verifyLinesWithin_cons_returns_iff]
    constructor
    · rintro ⟨hfirst, hrest⟩ before line after es hls hpassed
      -- The line is the first one, or the first one passed and it is among the rest.
      have hread := hpassed.read
      cases hread with
      | nil =>
        cases hls
        exact hfirst
      | @cons _ e₀ before es _ _ =>
        cases hls
        obtain ⟨hone, hmore⟩ := Passed.cons_iff.mp hpassed
        have hstep := ih.mp (hrest e₀ hone) before line after es rfl hmore
        obtain ⟨seq, hseq, -⟩ := hone.chained
        rwa [hseq, Option.getD_some, ← seqAfter_cons hseq prevSeq] at hstep
    · intro h
      refine ⟨h [] first ls [] rfl ⟨.nil, by simp, trivial⟩, fun e hone => ?_⟩
      rw [ih]
      rintro before line after es rfl hmore
      have hlater := h (first :: before) line after (e :: es) rfl
        (Passed.cons_iff.mpr ⟨hone, hmore⟩)
      obtain ⟨seq, hseq, -⟩ := hone.chained
      rwa [seqAfter_cons hseq, ← Option.getD_some (a := seq) (b := prevSeq), ← hseq] at hlater

/-- `verify` returns if and only if no line, behind lines that pass all its checks, raises what is
not caught: a limit of the interpreter, in `json.loads` or in the hash, or a `TypeError` for a hash
that `verify` has to report and that cannot be sliced. -/
theorem verifyWithin_returns_iff (limits : AuditLimits F) (file : Option (List Char)) :
    (∃ b, verifyWithin limits file = .ok b) ↔
      ∀ before line after es, lines file = before ++ line :: after →
        Passed limits [] (.int (-1)) before es →
        Answered limits (hashAfter [] es) (seqAfter (.int (-1)) es) line :=
  verifyLinesWithin_returns_iff

omit [Hashlib] in
/-- The line of an entry that was loaded is read as one line. -/
theorem lines_toJsonl {e : AuditEntry F} (h : e.Loaded) :
    lines (some (TextFile.ofLines [e.toJsonl])) = [e.toJsonl] := by
  apply TextFile.entryLines_ofLines
  · exact List.forall_mem_singleton.mpr (loaded_asdict h).printed
  · exact List.forall_mem_singleton.mpr (trimmed_toJsonl e)

end Report

section Examples

local instance reportFloats : JsonFloat ℕ := .tenths

local instance reportDigests : Hashlib := .checksum

/-- An entry without a previous hash, `null` in its line. -/
theorem verify_raises_on_null :
    ¬ ∀ file, ∃ b, verifyWithin ({} : AuditLimits ℕ) file = .ok b := by
  intro hall
  let e : AuditEntry ℕ :=
    { seq := .int 0, timestamp := .float 5, runId := .str [], promptHash := .str [],
      outputHash := .str [], tenantId := .str [], prevHash := .null }
  have hloaded : e.Loaded := by
    intro v hv
    simp only [e, values, List.mem_cons, List.not_mem_nil, or_false] at hv
    rcases hv with rfl | rfl | rfl | rfl | rfl | rfl | rfl | rfl
    · exact .int 0
    · exact .float 5
    · exact .str .nil
    · exact .str .nil
    · exact .str .nil
    · exact .str .nil
    · exact .null
    · exact .str .nil
  have hreturns := hall (some (TextFile.ofLines [e.toJsonl]))
  rw [verifyWithin_returns_iff, lines_toJsonl hloaded] at hreturns
  have hanswered := hreturns [] e.toJsonl [] [] rfl ⟨.nil, by simp, trivial⟩
  refine hanswered.reportable e (fromJsonl_toJsonl hloaded) ?_
  exact ⟨⟨.int 0, rfl, rfl⟩, .inl id⟩

end Examples

/-! ## The last entries -/

/-- What `lines[-n:]` keeps: the last `n` lines, or all of them for `n = 0`. -/
theorem sliceFrom_neg {α : Type} (xs : List α) (n : ℕ) :
    sliceFrom xs (-n : ℤ) = if n = 0 then xs else xs.drop (xs.length - n) := by
  rw [sliceFrom]
  rcases Nat.eq_zero_or_pos n with rfl | hpos
  · simp
  · rw [if_neg (by omega), if_neg (by omega), neg_neg, Int.toNat_natCast]

section Tail

variable {F : Type} [JsonFloat F] [Hashlib]

/-- `tail` returns the last entries, and all of them for `n = 0`. -/
theorem tail_fileOf {es : List (AuditEntry F)} {file : Option (List Char)}
    (hes : ∀ e ∈ es, Recorded e) (hfile : file.getD [] = fileOf es) (n : ℕ) :
    tail (F := F) file n = .ok ((if n = 0 then es else es.drop (es.length - n)).map
      AuditEntry.reloaded) := by
  rw [tail, sliceFrom_neg, lines_fileOf hes hfile, List.length_map, ← List.map_drop, ← apply_ite,
    Effect.except_mapM_eq_ok, List.forall₂_map_left_iff, List.forall₂_map_right_iff,
    List.forall₂_same]
  intro e he
  apply Recorded.fromJsonl
  split at he
  · exact hes e he
  · exact hes e (List.mem_of_mem_drop he)

/-- An entry reads back as it is if and only if its identifiers spell no surrogate pair. -/
theorem reloaded_eq_iff {call : AuditCall F} {e : AuditEntry F} (h : Records call e)
    (hrecorded : Recorded e) :
    e.reloaded = e ↔ call.runId.Paired ∧ call.tenantId.Paired := by
  constructor
  · intro heq
    obtain ⟨seq, prevHash, rfl⟩ := h
    have hrun := congrArg AuditEntry.runId heq
    have htenant := congrArg AuditEntry.tenantId heq
    simp only [AuditEntry.reloaded, entryOf, JsonValue.reloaded, JsonValue.str.injEq]
      at hrun htenant
    rw [← hrun, ← htenant]
    exact ⟨PyStr.paired_joinPairs _, PyStr.paired_joinPairs _⟩
  · rintro ⟨hrun, htenant⟩
    exact reloaded_of_records h hrecorded hrun htenant

/-- Entries are read as they were made if no id has a surrogate pair to join. -/
theorem map_reloaded_eq_iff {calls : List (AuditCall F)} {es : List (AuditEntry F)}
    (h : List.Forall₂ Records calls es) (hrecorded : ∀ e ∈ es, Recorded e) :
    es.map AuditEntry.reloaded = es ↔
      ∀ call ∈ calls, call.runId.Paired ∧ call.tenantId.Paired := by
  induction h with
  | nil => simp
  | cons hcall _ ih =>
    obtain ⟨he, hes⟩ := List.forall_mem_cons.mp hrecorded
    rw [List.map_cons, List.cons.injEq, reloaded_eq_iff hcall he, ih hes, List.forall_mem_cons]

/-- After any series of calls, `tail(n)` returns the last `min(n, count())` entries as the calls
returned them if and only if it is not asked for none of some, and the identifiers among those
entries spell no surrogate pair as two code points. -/
theorem tail_eq_last_iff {file : Option (List Char)} (hfile : file = none ∨ file = some [])
    (calls : List (AuditCall F)) :
    ∃ es file', recordAll file calls = .ok (es, file') ∧ ∀ n : ℕ,
      (tail file' n = .ok (es.drop (es.length - min n (count file'))) ↔
        (n = 0 → calls = []) ∧
          ∀ call ∈ calls.drop (calls.length - n),
            call.runId.Paired ∧ call.tenantId.Paired) := by
  obtain ⟨es, file', hall, hholds, hrecords⟩ := recordAll_of_holds (holds_nil hfile) calls
  rw [List.nil_append] at hholds
  refine ⟨es, file', hall, fun n => ?_⟩
  have hlen : calls.length = es.length := hrecords.length_eq
  have hcount : count file' = es.length := by
    rw [count, lines_fileOf hholds.recorded hholds.text, List.length_map]
  have hlast : es.length - min n es.length = es.length - n := by omega
  rw [tail_fileOf hholds.recorded hholds.text, hcount, hlast, Except.ok.injEq]
  rcases Nat.eq_zero_or_pos n with rfl | hpos
  · rw [if_pos rfl, Nat.sub_zero, List.drop_length, List.map_eq_nil_iff, Nat.sub_zero,
      List.drop_length, ← List.length_eq_zero_iff, ← hlen, List.length_eq_zero_iff]
    simp
  · have hdrop := List.forall₂_drop (es.length - n) hrecords
    have hrecorded : ∀ e ∈ es.drop (es.length - n), Recorded e :=
      fun e he => hholds.recorded e (List.mem_of_mem_drop he)
    rw [if_neg (by omega), map_reloaded_eq_iff hdrop hrecorded, hlen]
    simp [Nat.pos_iff_ne_zero.mp hpos]

end Tail

section Examples

local instance tailFloats : JsonFloat ℕ := .tenths

local instance tailDigests : Hashlib := .checksum

/-- The last one of two entries. -/
theorem tail_eq_last_two : ∃ (es : List (AuditEntry ℕ)) (file' : Option (List Char)),
    recordAll none twoCalls = .ok (es, file') ∧ es.length = 2 ∧ count file' = 2 ∧
      tail file' 1 = .ok (es.drop (es.length - min 1 (count file'))) := by
  obtain ⟨es, file', hall, htail⟩ := tail_eq_last_iff (.inl rfl) twoCalls
  obtain ⟨hholds, hlength⟩ := holds_of_recordAll (.inl rfl) hall
  have hcount : count file' = 2 := by
    rw [count, lines_fileOf hholds.recorded hholds.text, List.length_map, hlength]
    rfl
  refine ⟨es, file', hall, hlength, hcount, (htail 1).mpr ⟨?_, ?_⟩⟩
  · intro hzero
    cases hzero
  intro call hcall
  rw [List.mem_singleton.mp hcall]
  exact ⟨PyStr.paired_ofString "b", .nil⟩

/-- The last 0 of one entry. -/
theorem tail_zero_returns_all : ¬ ∀ (calls : List (AuditCall ℕ)) es file' (n : ℕ),
    recordAll none calls = .ok (es, file') →
      tail file' n = .ok (es.drop (es.length - min n (count file'))) := by
  intro hall
  obtain ⟨es, file', hcalls, hholds, hrecords⟩ := recordAll_of_holds (holds_nil (.inl rfl))
    [({ runId := [], prompt := "p", output := "o", time := 5 } : AuditCall ℕ)]
  rw [List.nil_append] at hholds
  have htail := hall _ es file' 0 hcalls
  rw [tail_fileOf hholds.recorded hholds.text, if_pos rfl, Except.ok.injEq, Nat.zero_min,
    Nat.sub_zero, List.drop_length, List.map_eq_nil_iff] at htail
  rw [htail] at hrecords
  cases hrecords

end Examples

end Chen.AuditLog
