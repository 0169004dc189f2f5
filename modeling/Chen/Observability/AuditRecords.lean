import Chen.Observability.AuditChain
import Mathlib.Tactic.Ring

/-!
# Logs written by `record`

A series of `record` calls on an empty log leaves one line for each call, and `verify` accepts it.
It also accepts what is left when entries are taken from the end, but not when one is taken from
before an entry that stays.
-/

namespace Chen.AuditLog

open AuditEntry

section Logs

variable {F : Type} [JsonFloat F] [Hashlib]

/-! ## The entries that `record` makes -/

/-- The entry of a call, under a number and after a hash. -/
def entryOf (seq : ℤ) (prevHash : PyStr) (call : AuditCall F) : AuditEntry F :=
  let entry : AuditEntry F :=
    { seq := .int seq
      timestamp := .float call.time
      runId := .str call.runId
      promptHash := .str (sha256Hex call.prompt)
      outputHash := .str (sha256Hex call.output)
      tenantId := .str call.tenantId
      prevHash := .str prevHash }
  { entry with entryHash := .str entry.computeHash }

/-- An entry that `record` made. -/
def Recorded (e : AuditEntry F) : Prop :=
  ∃ seq prevHash call, prevHash.Paired ∧ e = entryOf seq prevHash call

theorem entryHash_entryOf (seq : ℤ) (prevHash : PyStr) (call : AuditCall F) :
    (entryOf seq prevHash call).entryHash = .str (entryOf seq prevHash call).computeHash := rfl

/-- A hash has no surrogates. -/
theorem paired_computeHash (e : AuditEntry F) : e.computeHash.Paired :=
  PyStr.paired_ofString _

/-- An entry that is read has the hash of the one that was written. -/
theorem computeHash_reloaded (e : AuditEntry F) : e.reloaded.computeHash = e.computeHash := by
  rw [computeHash, canonical_reloaded, computeHash]

namespace Recorded

variable {e : AuditEntry F}

/-- A recorded entry has its own hash. -/
theorem entryHash (h : Recorded e) : e.entryHash = .str e.computeHash := by
  obtain ⟨seq, prevHash, call, -, rfl⟩ := h
  exact entryHash_entryOf seq prevHash call

/-- The number is an integer and the hash before it a string. -/
theorem shape (h : Recorded e) : ∃ n s, e.seq = .int n ∧ e.prevHash = .str s := by
  obtain ⟨seq, prevHash, call, -, rfl⟩ := h
  exact ⟨seq, prevHash, rfl, rfl⟩

/-- Its values are no containers. -/
theorem plain (h : Recorded e) : ∀ v ∈ e.values, v.Plain := by
  obtain ⟨seq, prevHash, call, -, rfl⟩ := h
  simp only [values, entryOf, List.mem_cons, List.not_mem_nil, or_false]
  rintro v (rfl | rfl | rfl | rfl | rfl | rfl | rfl | rfl) <;> trivial

/-- Its line is read back. -/
theorem fromJsonl (h : Recorded e) : AuditEntry.fromJsonl e.toJsonl = .ok e.reloaded :=
  fromJsonl_toJsonl_of_plain h.plain

/-- What was read has the number and the hashes that were written. -/
theorem seq_reloaded (h : Recorded e) : e.reloaded.seq = e.seq := by
  obtain ⟨seq, prevHash, call, -, rfl⟩ := h
  rfl

/-- The hash before it is read as it was written. -/
theorem prevHash_reloaded (h : Recorded e) : e.reloaded.prevHash = e.prevHash := by
  obtain ⟨seq, prevHash, call, hpaired, rfl⟩ := h
  exact congrArg JsonValue.str (PyStr.joinPairs_of_paired hpaired)

/-- So is its own hash. -/
theorem entryHash_reloaded (h : Recorded e) : e.reloaded.entryHash = .str e.computeHash := by
  show e.entryHash.reloaded = _
  rw [h.entryHash, JsonValue.reloaded, PyStr.joinPairs_of_paired (paired_computeHash e)]

/-- The line of an entry is one line, with a brace at either end. -/
theorem line (h : Recorded e) :
    (∀ c ∈ e.toJsonl, 0x20 ≤ c.toNat) ∧ TextFile.Trimmed e.toJsonl := by
  constructor
  · rw [← toJsonl_reloaded]
    exact (loaded_asdict (loaded_reloaded h.plain)).printed
  · exact trimmed_toJsonl e

end Recorded

/-! ## Files of recorded entries -/

/-- The text of a log with some entries. -/
def fileOf (es : List (AuditEntry F)) : List Char := TextFile.ofLines (es.map toJsonl)

section Files

variable {es : List (AuditEntry F)} {file : Option (List Char)}

/-- A log has a line for each entry. -/
theorem lines_fileOf (hes : ∀ e ∈ es, Recorded e) (hfile : file.getD [] = fileOf es) :
    lines file = es.map toJsonl := by
  rw [lines, hfile, fileOf]
  apply TextFile.entryLines_ofLines
  · exact List.forall_mem_map.mpr fun e he => (hes e he).line.1
  · exact List.forall_mem_map.mpr fun e he => (hes e he).line.2

/-- All entries of a log are read. -/
theorem entries_fileOf (hes : ∀ e ∈ es, Recorded e) (hfile : file.getD [] = fileOf es) :
    entries file = .ok (es.map AuditEntry.reloaded) := by
  rw [entries, lines_fileOf hes hfile, Effect.except_mapM_eq_ok, List.forall₂_map_left_iff,
    List.forall₂_map_right_iff, List.forall₂_same]
  exact fun e he => (hes e he).fromJsonl

/-- The last entry of a log is read. -/
theorem lastEntry_fileOf (hes : ∀ e ∈ es, Recorded e) (hfile : file.getD [] = fileOf es) :
    lastEntry file = es.getLast?.map AuditEntry.reloaded := by
  rw [lastEntry_of_entries (entries_fileOf hes hfile), List.getLast?_map]

omit [Hashlib] in
/-- An entry is appended as one more line. -/
theorem append_fileOf (hfile : file.getD [] = fileOf es) (e : AuditEntry F) :
    (append file e).getD [] = fileOf (es ++ [e]) := by
  rw [append, Option.getD_some, hfile, fileOf, fileOf, List.map_append, TextFile.ofLines,
    TextFile.ofLines, List.flatMap_append, List.map_singleton, List.flatMap_singleton]

/-- After an entry of this log, the next one counts on and names its hash. -/
theorem newEntry_reloaded {e : AuditEntry F} (h : Recorded e) {n : ℤ} (hseq : e.seq = .int n)
    (call : AuditCall F) :
    newEntry (some e.reloaded) call = .ok (entryOf (n + 1) e.computeHash call) := by
  rw [newEntry, nextSeq, h.seq_reloaded, hseq, h.entryHash_reloaded]
  rfl

theorem newEntry_none (call : AuditCall F) : newEntry none call = .ok (entryOf 0 [] call) := rfl

end Files

/-! ## Sound logs -/

/-- The entries are numbered from 0 and linked. -/
structure Sound (es : List (AuditEntry F)) : Prop where
  numbered : ∀ (i : ℕ) e, es[i]? = some e → e.seq = .int i
  linked : HashChain.Linked (fun e => .str e.computeHash) AuditEntry.prevHash (.str []) es

section Verify

variable {es : List (AuditEntry F)}

/-- Entries that are read are chained if they are numbered and linked. -/
theorem chained_reloaded_iff (hes : ∀ e ∈ es, Recorded e) (k : ℤ) (prevHash : PyStr) :
    Chained prevHash (.int (k - 1)) (es.map AuditEntry.reloaded) ↔
      (∀ (i : ℕ) e, es[i]? = some e → e.seq = .int (k + i)) ∧
        HashChain.Linked (fun e => .str e.computeHash) AuditEntry.prevHash (.str prevHash) es := by
  induction es generalizing k prevHash with
  | nil => simp [Chained, HashChain.Linked]
  | cons e es ih =>
    obtain ⟨he, hes⟩ := List.forall_mem_cons.mp hes
    have ih := ih hes (k + 1) e.computeHash
    rw [add_sub_cancel_right] at ih
    have hstep : (AuditSeq.int (k - 1) : AuditSeq F).next = .int k := by
      rw [AuditSeq.next, sub_add_cancel]
    -- The numbers of the rest count from the next one.
    have hindex : (∀ (i : ℕ) e', (e :: es)[i]? = some e' → e'.seq = .int (k + i)) ↔
        e.seq = .int k ∧ ∀ (i : ℕ) e', es[i]? = some e' → e'.seq = .int (k + 1 + i) := by
      constructor
      · intro h
        refine ⟨by simpa using h 0 e rfl, fun i e' hi => ?_⟩
        have := h (i + 1) e' hi
        rw [this]
        congr 1
        push_cast
        ring
      · rintro ⟨hfirst, hmore⟩ (_ | i) e' hi
        · cases hi
          simpa using hfirst
        · rw [hmore i e' hi]
          congr 1
          push_cast
          ring
    rw [List.map_cons, Chained, HashChain.Linked, hindex, he.seq_reloaded, he.prevHash_reloaded,
      he.entryHash_reloaded, computeHash_reloaded, hstep]
    constructor
    · rintro ⟨seq, hseq, hnumber, hprev, -, hrest⟩
      obtain ⟨n, -, hn, -⟩ := he.shape
      rw [hn] at hseq
      cases hseq
      have hnk : n = k := by simpa [AuditSeq.equals] using hnumber
      rw [hnk] at hn hrest
      obtain ⟨hmore, hlinked⟩ := ih.mp hrest
      exact ⟨⟨hn, hmore⟩, hprev, hlinked⟩
    · rintro ⟨⟨hseq, hmore⟩, hprev, hlinked⟩
      refine ⟨.int k, by rw [hseq]; rfl, ?_, hprev, rfl, ih.mpr ⟨hmore, hlinked⟩⟩
      simp [AuditSeq.equals]

/-- `verify` accepts the file of sound entries only. -/
theorem verify_fileOf_iff (hes : ∀ e ∈ es, Recorded e) {file : Option (List Char)}
    (hfile : file.getD [] = fileOf es) : verify F file = .ok true ↔ Sound es := by
  have hchained := chained_reloaded_iff hes 0 []
  simp only [zero_add, zero_sub] at hchained
  rw [verify_eq_true, entries_fileOf hes hfile]
  constructor
  · rintro ⟨es', heq, h⟩
    cases heq
    obtain ⟨hnumbered, hlinked⟩ := hchained.mp h
    exact ⟨hnumbered, hlinked⟩
  · exact fun h => ⟨_, rfl, hchained.mpr ⟨h.numbered, h.linked⟩⟩

/-- On recorded entries `verify` answers, whatever their order. -/
theorem verifyLines_returns (hes : ∀ e ∈ es, Recorded e) (prevHash : PyStr)
    (prevSeq : AuditSeq F) : ∃ b, verifyLines (es.map toJsonl) prevHash prevSeq = .ok b := by
  induction es generalizing prevHash prevSeq with
  | nil => exact ⟨true, rfl⟩
  | cons e es ih =>
    obtain ⟨he, hes⟩ := List.forall_mem_cons.mp hes
    obtain ⟨seq, prev, hseq, hprev⟩ := he.shape
    rw [List.map_cons, verifyLines_cons, he.fromJsonl]
    simp only [he.seq_reloaded, he.prevHash_reloaded, he.entryHash_reloaded, hseq, hprev,
      AuditSeq.ofValue]
    split_ifs
    · exact ⟨false, rfl⟩
    · exact ⟨false, rfl⟩
    · exact ⟨false, rfl⟩
    · exact ih hes _ _

/-- `verify` returns on every log of recorded entries. -/
theorem verify_fileOf_returns (hes : ∀ e ∈ es, Recorded e) {file : Option (List Char)}
    (hfile : file.getD [] = fileOf es) : ∃ b, verify F file = .ok b := by
  rw [verify, lines_fileOf hes hfile]
  exact verifyLines_returns hes [] _

/-- An empty log is sound. -/
theorem sound_nil : Sound ([] : List (AuditEntry F)) := ⟨by simp, trivial⟩

/-- Sound entries grow by one that counts on and names the last hash. -/
theorem sound_append_singleton (e : AuditEntry F) :
    Sound (es ++ [e]) ↔ Sound es ∧ e.seq = .int es.length ∧
      e.prevHash = HashChain.tip (fun e => .str e.computeHash) (.str []) es := by
  constructor
  · intro h
    obtain ⟨hlinked, hprev⟩ := (HashChain.linked_append_singleton e).mp h.linked
    refine ⟨⟨fun i e' hi => h.numbered i e' ?_, hlinked⟩, ?_, hprev⟩
    · rw [List.getElem?_append_left (List.getElem?_eq_some_iff.mp hi).1]
      exact hi
    · exact h.numbered es.length e List.getElem?_concat_length
  · rintro ⟨h, hseq, hprev⟩
    refine ⟨?_, (HashChain.linked_append_singleton e).mpr ⟨h.linked, hprev⟩⟩
    intro i e' hi
    -- the index of an old entry, or that of the new one
    rcases Nat.lt_or_ge i es.length with hlt | hge
    · rw [List.getElem?_append_left hlt] at hi
      exact h.numbered i e' hi
    · rw [List.getElem?_append_right hge] at hi
      cases hoffset : i - es.length with
      | zero =>
        rw [hoffset] at hi
        cases hi
        have hlen : i = es.length := by omega
        rw [hlen, hseq]
      | succ n =>
        rw [hoffset] at hi
        cases hi

/-- The beginning of a sound log is sound. -/
theorem Sound.of_append {es' : List (AuditEntry F)} (h : Sound (es ++ es')) : Sound es := by
  refine ⟨fun i e hi => h.numbered i e ?_, h.linked.of_append⟩
  rw [List.getElem?_append_left (List.getElem?_eq_some_iff.mp hi).1]
  exact hi

/-- No number is used twice. -/
theorem Sound.nodup (h : Sound es) : (es.map AuditEntry.seq).Nodup := by
  have hseqs : es.map AuditEntry.seq =
      (List.range es.length).map fun i : ℕ => (.int i : JsonValue F) := by
    apply List.ext_getElem?
    intro i
    rw [List.getElem?_map, List.getElem?_map]
    cases hi : es[i]? with
    | none =>
      rw [List.getElem?_eq_none_iff] at hi
      rw [List.getElem?_eq_none (by simpa using hi)]
      rfl
    | some e =>
      rw [List.getElem?_range (List.getElem?_eq_some_iff.mp hi).1, Option.map_some,
        Option.map_some, h.numbered i e hi]
  rw [hseqs]
  apply List.Nodup.map _ List.nodup_range
  intro i j hij
  simpa using hij

/-- Some of the entries, in their order, are sound as long as none is missing before another. -/
theorem sound_sublist_iff {kept : List (AuditEntry F)} (hes : ∀ e ∈ es, Recorded e)
    (h : Sound es) (hkept : kept.Sublist es) :
    Sound kept ↔ kept.map toJsonl <+: es.map toJsonl := by
  have hrecorded : ∀ e ∈ kept, Recorded e := fun e he => hes e (hkept.subset he)
  constructor
  · intro hsound
    -- an entry's number is its place in the whole log
    have htake : kept = es.take kept.length := by
      apply List.ext_getElem?
      intro i
      cases hi : kept[i]? with
      | none =>
        rw [List.getElem?_eq_none_iff] at hi
        rw [List.getElem?_take_eq_none hi]
      | some e =>
        have hlt : i < kept.length := (List.getElem?_eq_some_iff.mp hi).1
        obtain ⟨j, hj⟩ := List.mem_iff_getElem?.mp (hkept.subset (List.mem_of_getElem? hi))
        have hij : (JsonValue.int i : JsonValue F) = .int j := by
          rw [← hsound.numbered i e hi, ← h.numbered j e hj]
        have hij : i = j := by simpa using hij
        rw [List.getElem?_take_of_lt hlt, hij, hj]
    exact (List.prefix_iff_eq_take.mpr htake).map _
  · intro hprefixed
    have htake := List.prefix_iff_eq_take.mp hprefixed
    rw [← List.map_take] at htake
    have hfile : (some (fileOf kept)).getD [] = fileOf (es.take (kept.map toJsonl).length) :=
      congrArg TextFile.ofLines htake
    have hbefore : Sound (es.take (kept.map toJsonl).length) := by
      rw [← List.take_append_drop (kept.map toJsonl).length es] at h
      exact h.of_append
    have hverify : verify F (some (fileOf kept)) = .ok true :=
      (verify_fileOf_iff (fun e he => hes e (List.mem_of_mem_take he)) hfile).mpr hbefore
    exact (verify_fileOf_iff hrecorded rfl).mp hverify

end Verify

/-! ## Series of calls -/

/-- A series of `record` calls: the entries they return, and the file afterwards. -/
def recordAll (file : Option (List Char)) :
    List (AuditCall F) → Except Exn (List (AuditEntry F) × Option (List Char))
  | [] => .ok ([], file)
  | call :: calls => do
    let (entry, file) ← record file call
    let (entries, file) ← recordAll file calls
    pure (entry :: entries, file)

/-- A file with sound entries, all of them made by `record`. -/
structure Holds (file : Option (List Char)) (es : List (AuditEntry F)) : Prop where
  recorded : ∀ e ∈ es, Recorded e
  text : file.getD [] = fileOf es
  sound : Sound es

section Calls

variable {file : Option (List Char)} {es : List (AuditEntry F)}

/-- A missing file and an empty one hold no entries. -/
theorem holds_nil (h : file = none ∨ file = some []) : Holds file ([] : List (AuditEntry F)) := by
  refine ⟨by simp, ?_, sound_nil⟩
  rcases h with rfl | rfl <;> rfl

/-- The hash that the next entry will name. -/
def lastHash (es : List (AuditEntry F)) : PyStr :=
  match es.getLast? with
  | some e => e.computeHash
  | none => []

/-- The call makes the next entry of the chain. -/
theorem newEntry_of_holds (h : Holds file es) (call : AuditCall F) :
    newEntry (lastEntry file) call = .ok (entryOf es.length (lastHash es) call) := by
  rw [lastEntry_fileOf h.recorded h.text, lastHash]
  cases es using List.reverseRecOn with
  | nil => exact newEntry_none call
  | append_singleton es e =>
    have hseq : e.seq = .int (es.length : ℤ) := ((sound_append_singleton e).mp h.sound).2.1
    rw [List.getLast?_concat, Option.map_some,
      newEntry_reloaded (h.recorded e (by simp)) hseq call, List.length_append]
    rfl

/-- The tip of the chain is the hash that the next entry names. -/
theorem tip_eq_lastHash (es : List (AuditEntry F)) :
    HashChain.tip (fun e : AuditEntry F => .str e.computeHash) (.str []) es =
      (.str (lastHash es) : JsonValue F) := by
  rw [lastHash, HashChain.tip]
  cases es.getLast? <;> rfl

/-- `record` appends the next entry, and the log stays sound. -/
theorem record_of_holds (h : Holds file es) (call : AuditCall F) :
    let e := entryOf es.length (lastHash es) call
    record file call = .ok (e, append file e) ∧ Holds (append file e) (es ++ [e]) := by
  intro e
  constructor
  · rw [record, newEntry_of_holds h]
    rfl
  · have hpaired : (lastHash es).Paired := by
      rw [lastHash]
      split
      · exact paired_computeHash _
      · exact .nil
    refine ⟨?_, append_fileOf h.text e, (sound_append_singleton e).mpr ⟨h.sound, rfl, ?_⟩⟩
    · rw [List.forall_mem_append]
      exact ⟨h.recorded, List.forall_mem_singleton.mpr ⟨_, _, call, hpaired, rfl⟩⟩
    · exact (tip_eq_lastHash es).symm

/-- Two series of calls, one after the other. -/
theorem recordAll_append {file₁ file₂ : Option (List Char)} {calls calls' : List (AuditCall F)}
    {es' : List (AuditEntry F)} (h : recordAll file calls = .ok (es, file₁))
    (h' : recordAll file₁ calls' = .ok (es', file₂)) :
    recordAll file (calls ++ calls') = .ok (es ++ es', file₂) := by
  induction calls generalizing file es with
  | nil =>
    cases h
    exact h'
  | cons call calls ih =>
    rw [recordAll] at h
    obtain ⟨⟨e, file'⟩, hrecord, h⟩ := Effect.except_bind_eq_ok.mp h
    obtain ⟨⟨rest, file''⟩, hrest, h⟩ := Effect.except_bind_eq_ok.mp h
    cases h
    rw [List.cons_append, recordAll, hrecord]
    show (recordAll file' (calls ++ calls') >>= _) = _
    rw [ih hrest]
    rfl

/-- The arguments of a call stand in its entry. -/
def Records (call : AuditCall F) (e : AuditEntry F) : Prop :=
  ∃ seq prevHash, e = entryOf seq prevHash call

/-- A series of calls on a sound log returns, and adds an entry for each call. -/
theorem recordAll_of_holds (h : Holds file es) (calls : List (AuditCall F)) :
    ∃ es' file', recordAll file calls = .ok (es', file') ∧ Holds file' (es ++ es') ∧
      List.Forall₂ Records calls es' := by
  induction calls generalizing file es with
  | nil => exact ⟨[], file, rfl, by simpa using h, .nil⟩
  | cons call calls ih =>
    obtain ⟨hrecord, hholds⟩ := record_of_holds h call
    obtain ⟨es', file', hrest, hholds', hall⟩ := ih hholds
    refine ⟨_ :: es', file', ?_, by simpa using hholds', .cons ⟨_, _, rfl⟩ hall⟩
    rw [recordAll, hrecord]
    show (recordAll _ calls >>= _) = _
    rw [hrest]
    rfl

/-- What a series of calls on a new log has left. -/
theorem holds_of_recordAll (hfile : file = none ∨ file = some []) {calls : List (AuditCall F)}
    {file' : Option (List Char)} (h : recordAll file calls = .ok (es, file')) :
    Holds file' es ∧ es.length = calls.length := by
  obtain ⟨es', file'', hall, hholds, hrecords⟩ := recordAll_of_holds (holds_nil hfile) calls
  cases h.symm.trans hall
  exact ⟨hholds, hrecords.length_eq.symm⟩

omit [Hashlib] in
/-- The text of a log that goes on. -/
theorem fileOf_append (es es' : List (AuditEntry F)) :
    fileOf (es ++ es') = fileOf es ++ fileOf es' := by
  rw [fileOf, List.map_append, TextFile.ofLines, List.flatMap_append]
  rfl

/-- An entry is read as it was made if its ids have no surrogate pair to join. -/
theorem reloaded_of_records {call : AuditCall F} {e : AuditEntry F} (h : Records call e)
    (hrecorded : Recorded e) (hrun : call.runId.Paired) (htenant : call.tenantId.Paired) :
    e.reloaded = e := by
  obtain ⟨seq, prevHash, rfl⟩ := h
  have hstr {s : PyStr} (hs : s.Paired) : (JsonValue.str s : JsonValue F).reloaded = .str s :=
    congrArg JsonValue.str (PyStr.joinPairs_of_paired hs)
  have hprev : (JsonValue.str prevHash : JsonValue F).reloaded = .str prevHash :=
    hrecorded.prevHash_reloaded
  have hdigest (text : String) : (sha256Hex text).Paired := PyStr.paired_ofString _
  rw [entryOf, AuditEntry.reloaded]
  simp only [hstr hrun, hstr htenant, hstr (hdigest _), hstr (paired_computeHash _), hprev]
  rfl

/-- Entries of calls with paired identifiers read back as they are. -/
theorem map_reloaded {calls : List (AuditCall F)} (h : List.Forall₂ Records calls es)
    (hrecorded : ∀ e ∈ es, Recorded e)
    (hids : ∀ call ∈ calls, call.runId.Paired ∧ call.tenantId.Paired) :
    es.map AuditEntry.reloaded = es := by
  induction h with
  | nil => rfl
  | cons hcall _ ih =>
    obtain ⟨he, hes⟩ := List.forall_mem_cons.mp hrecorded
    obtain ⟨hpaired, hpaireds⟩ := List.forall_mem_cons.mp hids
    rw [List.map_cons, reloaded_of_records hcall he hpaired.1 hpaired.2, ih hes hpaireds]

/-- What the first calls on an empty log have written, the calls after them leave as it is. -/
theorem recordAll_take {file : Option (List Char)} (hfile : file = none ∨ file = some [])
    {calls : List (AuditCall F)} {es : List (AuditEntry F)} {file' : Option (List Char)}
    (hall : recordAll file calls = .ok (es, file')) (k : ℕ) :
    ∃ fileₖ, recordAll file (calls.take k) = .ok (es.take k, fileₖ) ∧
      fileₖ.getD [] <+: file'.getD [] ∧ lines fileₖ = (lines file').take k := by
  obtain ⟨es₁, file₁, hall₁, hholds₁, hrecords₁⟩ :=
    recordAll_of_holds (holds_nil hfile) (calls.take k)
  obtain ⟨es₂, file₂, hall₂, hholds₂, hrecords₂⟩ := recordAll_of_holds hholds₁ (calls.drop k)
  have happend := recordAll_append hall₁ hall₂
  rw [List.take_append_drop, hall] at happend
  cases happend
  rw [List.nil_append] at hholds₁ hholds₂
  have hlen₁ : es₁.length = min k calls.length := by
    rw [← hrecords₁.length_eq, List.length_take]
  have hlen₂ : es₂.length = calls.length - k := by
    rw [← hrecords₂.length_eq, List.length_drop]
  -- the first `k` calls make the first `k` entries
  have htake : (es₁ ++ es₂).take k = es₁ := by
    rw [List.take_append, List.take_of_length_le (by omega), List.append_right_eq_self,
      List.take_eq_nil_iff]
    rcases Nat.le_total k calls.length with hle | hle
    · left
      omega
    · right
      exact List.length_eq_zero_iff.mp (by omega)
  refine ⟨file₁, by rw [htake, hall₁], ?_, ?_⟩
  · rw [hholds₁.text, hholds₂.text, fileOf_append]
    exact List.prefix_append _ _
  · rw [lines_fileOf hholds₂.recorded hholds₂.text, lines_fileOf hholds₁.recorded hholds₁.text,
      ← List.map_take, htake]

end Calls

/-! ## Main results -/

/-- After any series of calls on an empty log: `verify` accepts it, there is one line for each call,
the entries are numbered, linked and read back as they were returned, and no call changed what the
calls before it had written. -/
theorem recordAll_spec {file : Option (List Char)} (hfile : file = none ∨ file = some [])
    (calls : List (AuditCall F))
    (hrun : ∀ call ∈ calls, JsonValue.loads (JsonValue.str (F := F) call.runId).dumps =
      .ok (.str (F := F) call.runId))
    (htenant : ∀ call ∈ calls, JsonValue.loads (JsonValue.str (F := F) call.tenantId).dumps =
      .ok (.str (F := F) call.tenantId)) :
    ∃ es file', recordAll file calls = .ok (es, file') ∧
      verify F file' = .ok true ∧
      count file' = calls.length ∧
      entries file' = .ok es ∧
      List.Forall₂ Records calls es ∧
      (∀ (i : ℕ) e, es[i]? = some e → e.seq = .int i) ∧
      (∀ e, es[0]? = some e → e.prevHash = .str []) ∧
      (∀ (i : ℕ) e e', es[i]? = some e → es[i + 1]? = some e' → e'.prevHash = e.entryHash) ∧
      ∀ k, ∃ fileₖ, recordAll file (calls.take k) = .ok (es.take k, fileₖ) ∧
        fileₖ.getD [] <+: file'.getD [] ∧ lines fileₖ = (lines file').take k := by
  have hpaired {s : PyStr} (h : JsonValue.loads (JsonValue.str (F := F) s).dumps =
      .ok (.str (F := F) s)) : s.Paired := by
    cases JsonValue.loaded_of_loads h with
    | str h => exact h
  obtain ⟨es, file', hall, hholds, hrecords⟩ := recordAll_of_holds (holds_nil hfile) calls
  rw [List.nil_append] at hholds
  have hreloaded : es.map AuditEntry.reloaded = es :=
    map_reloaded hrecords hholds.recorded fun call hcall =>
      ⟨hpaired (hrun call hcall), hpaired (htenant call hcall)⟩
  obtain ⟨hfirst, hprev⟩ := hholds.sound.linked.prev_eq
  have hlines := lines_fileOf hholds.recorded hholds.text
  refine ⟨es, file', hall, (verify_fileOf_iff hholds.recorded hholds.text).mpr hholds.sound,
    ?_, ?_, hrecords, hholds.sound.numbered, hfirst, ?_, ?_⟩
  · rw [count, hlines, List.length_map, hrecords.length_eq]
  · rw [entries_fileOf hholds.recorded hholds.text, hreloaded]
  · intro i e e' hi hnext
    rw [hprev i e e' hi hnext, (hholds.recorded e (List.mem_of_getElem? hi)).entryHash]
  · exact recordAll_take hfile hall

end Logs

section Examples

local instance recordFloats : JsonFloat ℕ := .tenths

local instance recordDigests : Hashlib := .checksum

/-- Two calls, with a line break and a quote in the identifiers. -/
theorem recordAll_spec_two : ∃ (es : List (AuditEntry ℕ)) (file' : Option (List Char)),
    recordAll none
      [{ runId := .ofString "run\n\"1\"", prompt := "p1", output := "o1", time := 5 },
        { runId := .ofString "été", prompt := "p2", output := "o2", tenantId := .ofString "t",
          time := 17 }] = .ok (es, file') ∧
      verify ℕ file' = .ok true ∧ count file' = 2 ∧ entries file' = .ok es := by
  have hloads (s : String) : JsonValue.loads (JsonValue.str (F := ℕ) (.ofString s)).dumps =
      .ok (.str (F := ℕ) (.ofString s)) := JsonValue.loads_dumps (.str (PyStr.paired_ofString s))
  obtain ⟨es, file', hall, hverify, hcount, hentries, -⟩ := recordAll_spec (F := ℕ) (.inl rfl)
    [{ runId := .ofString "run\n\"1\"", prompt := "p1", output := "o1", time := 5 },
      { runId := .ofString "été", prompt := "p2", output := "o2", tenantId := .ofString "t",
        time := 17 }]
    (by simp [hloads]) (by
      have hempty := hloads ""
      simp only [List.forall_mem_cons, hloads, true_and]
      exact ⟨hempty, by simp⟩)
  exact ⟨es, file', hall, hverify, hcount, hentries⟩

end Examples

section Deletions

variable {F : Type} [JsonFloat F] [Hashlib]

/-- `verify` rejects what is left of a log if and only if an entry is missing before one that is
left. -/
theorem verify_kept_iff {file : Option (List Char)} (hfile : file = none ∨ file = some [])
    (calls : List (AuditCall F)) :
    ∃ es file', recordAll file calls = .ok (es, file') ∧
      ∀ kept, kept.Sublist (lines file') →
        (verify F (some (TextFile.ofLines kept)) = .ok false ↔ ¬ kept <+: lines file') := by
  obtain ⟨es, file', hall, hholds, -⟩ := recordAll_of_holds (holds_nil hfile) calls
  rw [List.nil_append] at hholds
  refine ⟨es, file', hall, ?_⟩
  rw [lines_fileOf hholds.recorded hholds.text]
  intro kept hkept
  obtain ⟨kept, hsublist, rfl⟩ := List.sublist_map_iff.mp hkept
  have hrecorded : ∀ e ∈ kept, Recorded e := fun e he => hholds.recorded e (hsublist.subset he)
  obtain ⟨b, hb⟩ : ∃ b, verify F (some (fileOf kept)) = .ok b :=
    verify_fileOf_returns hrecorded rfl
  have htrue : verify F (some (fileOf kept)) = .ok true ↔ Sound kept :=
    verify_fileOf_iff hrecorded rfl
  rw [sound_sublist_iff hholds.recorded hholds.sound hsublist] at htrue
  rw [← htrue]
  show verify F (some (fileOf kept)) = _ ↔ _
  rw [hb]
  cases b <;> simp

end Deletions

section Examples

local instance keptFloats : JsonFloat ℕ := .tenths

local instance keptDigests : Hashlib := .checksum

/-- Two calls that are recorded. -/
def twoCalls : List (AuditCall ℕ) :=
  [{ runId := .ofString "a", prompt := "p1", output := "o1", time := 5 },
    { runId := .ofString "b", prompt := "p2", output := "o2", time := 17 }]

/-- The first of two entries is deleted, and `verify` sees it. -/
theorem verify_kept_two : ∃ (es : List (AuditEntry ℕ)) (file' : Option (List Char)),
    recordAll none twoCalls = .ok (es, file') ∧ (lines file').length = 2 ∧
      verify ℕ (some (TextFile.ofLines (lines file').tail)) = .ok false := by
  obtain ⟨es, file', hall, hkept⟩ := verify_kept_iff (.inl rfl) twoCalls
  obtain ⟨hholds, hlength⟩ := holds_of_recordAll (.inl rfl) hall
  have hlines : lines file' = es.map toJsonl := lines_fileOf hholds.recorded hholds.text
  obtain ⟨first, second, rfl⟩ := List.length_eq_two.mp hlength
  have hmissing : ¬ [second].map toJsonl <+: [first, second].map toJsonl := by
    rw [← sound_sublist_iff hholds.recorded hholds.sound (by simp)]
    intro hsound
    -- the entry that is left has the number 1, and would need 0
    have hseq := (hholds.sound.numbered 1 second rfl).symm.trans (hsound.numbered 0 second rfl)
    cases hseq
  refine ⟨_, file', hall, by rw [hlines]; rfl, (hkept _ (List.tail_sublist _)).mpr ?_⟩
  rw [hlines]
  exact hmissing

/-- The last of two entries is deleted, and `verify` does not see it. -/
theorem truncated_log_verifies : ¬ ∀ (calls : List (AuditCall ℕ)) es file',
    recordAll none calls = .ok (es, file') → ∀ kept, kept.Sublist (lines file') →
      kept ≠ lines file' → verify ℕ (some (TextFile.ofLines kept)) = .ok false := by
  intro hall
  obtain ⟨es, file', hcalls, hholds, hrecords⟩ := recordAll_of_holds (holds_nil (.inl rfl))
    [({ runId := [], prompt := "p1", output := "o1", time := 5 } : AuditCall ℕ),
      { runId := [], prompt := "p2", output := "o2", time := 17 }]
  rw [List.nil_append] at hholds
  have hlines := lines_fileOf hholds.recorded hholds.text
  have hlen : es.length = 2 := hrecords.length_eq.symm
  have hfalse := hall _ es file' hcalls ((es.take 1).map toJsonl)
    (by rw [hlines]; exact (List.take_sublist 1 es).map _)
    (by
      rw [hlines]
      intro heq
      have := congrArg List.length heq
      simp [hlen] at this)
  have hsound : Sound (es.take 1) := by
    have hall := hholds.sound
    rw [← List.take_append_drop 1 es] at hall
    exact hall.of_append
  have htrue : verify ℕ (some (fileOf (es.take 1))) = .ok true :=
    (verify_fileOf_iff (fun e he => hholds.recorded e (List.mem_of_mem_take he)) rfl).mpr hsound
  rw [fileOf, hfalse] at htrue
  cases htrue

end Examples

end Chen.AuditLog
