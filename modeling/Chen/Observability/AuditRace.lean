import Chen.Library.Machine
import Chen.Observability.AuditRecords

/-!
# Several writers on one log

A `record` call reads the last entry, and then appends a line. Where another call appends in
between, the two entries have one number, and `verify` rejects the log from then on.
-/

namespace Chen

variable {W F : Type}

/-- A step of a writer: one half of a `record` call. -/
inductive WriterStep (W F : Type) where
  | read (writer : W)
  | append (writer : W) (call : AuditCall F)

namespace WriterStep

/-- Who takes the step. -/
def writer : WriterStep W F → W
  | read w => w
  | append w _ => w

/-- The call that the step completes. -/
def call? : WriterStep W F → Option (W × AuditCall F)
  | read _ => none
  | append w call => some (w, call)

/-- The two steps of every call of a writer, one call after the other. -/
def ofCalls (w : W) (calls : List (AuditCall F)) : List (WriterStep W F) :=
  calls.flatMap fun call => [read w, append w call]

variable [DecidableEq W]

/-- The step reads for a writer. -/
def isReadOf (w : W) : WriterStep W F → Bool
  | read w' => w' = w
  | append _ _ => false

/-- The calls that were completed, in the order of their lines. -/
def completed (steps : List (WriterStep W F)) : List (W × AuditCall F) := steps.filterMap call?

/-- The steps are those of the writers' calls, in any order that keeps the order of each writer. -/
def Interleaves (calls : W → List (AuditCall F)) (steps : List (WriterStep W F)) : Prop :=
  ∀ w, steps.filter (·.writer = w) = ofCalls w (calls w)

/-- The steps after the last read of a writer, the latest first. -/
def sinceRead (w : W) (steps : List (WriterStep W F)) : List (WriterStep W F) :=
  steps.reverse.takeWhile fun s => !s.isReadOf w

/-- No call appends between the read of another call and its append. -/
def Undisturbed (steps : List (WriterStep W F)) : Prop :=
  ∀ pre w call, pre ++ [append w call] <+: steps → completed (sinceRead w pre) = []

omit [DecidableEq W] in
@[simp] theorem completed_append (steps steps' : List (WriterStep W F)) :
    completed (steps ++ steps') = completed steps ++ completed steps' :=
  List.filterMap_append

/-- The steps since a writer's last read, after one more. -/
theorem sinceRead_append_singleton (w : W) (steps : List (WriterStep W F))
    (s : WriterStep W F) :
    sinceRead w (steps ++ [s]) = if s.isReadOf w then [] else s :: sinceRead w steps := by
  rw [sinceRead, List.reverse_append, List.reverse_singleton, List.singleton_append,
    List.takeWhile_cons]
  cases s.isReadOf w <;> rfl

/-- The last step is harmless unless it appends after another append. -/
theorem undisturbed_append_singleton (steps : List (WriterStep W F)) (s : WriterStep W F) :
    Undisturbed (steps ++ [s]) ↔ Undisturbed steps ∧
      ∀ w call, s = append w call → completed (sinceRead w steps) = [] := by
  constructor
  · intro h
    refine ⟨fun pre w call hpre => h pre w call (hpre.trans (List.prefix_append _ _)), ?_⟩
    rintro w call rfl
    exact h steps w call List.prefix_rfl
  · rintro ⟨hbefore, hlast⟩ pre w call hpre
    rcases List.prefix_concat_iff.mp hpre with heq | hpre
    · obtain ⟨rfl, hs⟩ := List.append_inj' heq rfl
      exact hlast w call (List.cons.inj hs).1.symm
    · exact hbefore pre w call hpre

/-- The calls completed since a read are some of all of them. -/
theorem length_completed_sinceRead (w : W) (steps : List (WriterStep W F)) :
    (completed (sinceRead w steps)).length ≤ (completed steps).length := by
  have hsub : (sinceRead w steps).Sublist steps.reverse := List.takeWhile_sublist _
  have hlen := (hsub.filterMap call?).length_le
  rwa [List.filterMap_reverse, List.length_reverse] at hlen

omit [DecidableEq W] in
/-- An append of a writer comes after its read. -/
theorem getLast?_of_ofCalls {w : W} {call : AuditCall F} {l r : List (WriterStep W F)}
    {calls : List (AuditCall F)} (h : l ++ append w call :: r = ofCalls w calls) :
    l.getLast? = some (read w) := by
  induction calls generalizing l with
  | nil => simp [ofCalls] at h
  | cons c calls ih =>
    rw [ofCalls, List.flatMap_cons] at h
    match l with
    | [] => cases h
    | [s] =>
      cases h
      rfl
    | s :: s' :: l =>
      have hrest : l ++ append w call :: r = ofCalls w calls := by
        simp only [List.cons_append, List.nil_append, List.cons.injEq] at h
        exact h.2.2
      have hlast := ih hrest
      cases l with
      | nil => cases hlast
      | cons t l => rwa [List.getLast?_cons_cons, List.getLast?_cons_cons]

/-- The calls of a writer, out of all that were completed. -/
theorem completed_filter {calls : W → List (AuditCall F)} {steps : List (WriterStep W F)}
    (h : Interleaves calls steps) (w : W) :
    (completed steps).filter (·.1 = w) = (calls w).map fun call => (w, call) := by
  have hfilter : (completed steps).filter (·.1 = w) = completed (steps.filter (·.writer = w)) := by
    clear h
    induction steps with
    | nil => rfl
    | cons s steps ih =>
      cases s with
      | read w' =>
        rw [List.filter_cons]
        split
        · exact ih
        · exact ih
      | append w' call =>
        show List.filter _ ((w', call) :: completed steps) = _
        rw [List.filter_cons, List.filter_cons]
        by_cases hw : w' = w
        · simp only [hw, decide_true, if_true, writer, ih]
          rfl
        · simp [hw, writer, ih]
  rw [hfilter, h w]
  induction calls w with
  | nil => rfl
  | cons call rest ih =>
    show (w, call) :: completed (ofCalls w rest) = _
    rw [ih, List.map_cons]

end WriterStep

/-- A log, and what each writer has read but not used yet. -/
structure AuditWriters (W F : Type) where
  file : Option (List Char)
  pending : W → Option (Option (AuditEntry F))

namespace AuditWriters

open WriterStep AuditLog

section Interleavings

variable [DecidableEq W] [JsonFloat F] [Hashlib]

/-- A step. A writer that has read nothing appends nothing. -/
def step (s : AuditWriters W F) : WriterStep W F → AuditWriters W F
  | .read w => { s with pending := Function.update s.pending w (some (lastEntry s.file)) }
  | .append w call =>
    match s.pending w with
    | none => s
    | some last =>
      match newEntry last call with
      | .ok entry =>
        { file := AuditLog.append s.file entry, pending := Function.update s.pending w none }
      | .error _ => { s with pending := Function.update s.pending w none }

/-- The state after some steps on a log that nobody has read yet. -/
def after (file : Option (List Char)) (steps : List (WriterStep W F)) : AuditWriters W F :=
  Machine.run step ⟨file, fun _ => none⟩ steps

/-! ## What is pending -/

omit [JsonFloat F] [Hashlib] in
/-- The steps of a writer, after one more. -/
theorem filter_append_singleton (steps : List (WriterStep W F)) (s : WriterStep W F) (w : W) :
    (steps ++ [s]).filter (·.writer = w) =
      steps.filter (·.writer = w) ++ if s.writer = w then [s] else [] := by
  rw [List.filter_append, List.filter_singleton]
  by_cases hw : s.writer = w <;> simp [hw]

/-- The state after one more step. -/
theorem after_append_singleton (file : Option (List Char)) (steps : List (WriterStep W F))
    (s : WriterStep W F) : after file (steps ++ [s]) = step (after file steps) s := by
  rw [after, Machine.run_append]
  rfl

/-- A step of one writer leaves alone what the others have read. -/
theorem pending_step_of_ne (s : AuditWriters W F) {st : WriterStep W F} {w : W}
    (h : st.writer ≠ w) : (step s st).pending w = s.pending w := by
  cases st with
  | read w' => exact Function.update_of_ne (Ne.symm h) ..
  | append w' call =>
    rw [step]
    split
    · rfl
    · split
      · exact Function.update_of_ne (Ne.symm h) ..
      · exact Function.update_of_ne (Ne.symm h) ..

/-- What a writer has read is the last entry of the file. -/
theorem pending_read (s : AuditWriters W F) (w : W) :
    (step s (.read w)).pending w = some (lastEntry s.file) :=
  Function.update_self ..

/-- Once it has appended, nothing is pending. -/
theorem pending_append (s : AuditWriters W F) (w : W) (call : AuditCall F) :
    (step s (.append w call)).pending w = none := by
  rw [step]
  split
  · assumption
  · split
    · exact Function.update_self ..
    · exact Function.update_self ..

/-- A writer has something pending exactly when its last step was a read. -/
theorem isSome_pending (file : Option (List Char)) (steps : List (WriterStep W F)) (w : W) :
    ((after file steps).pending w).isSome = true ↔
      (steps.filter (·.writer = w)).getLast? = some (.read w) := by
  induction steps using List.reverseRecOn with
  | nil => simp [after]
  | append_singleton steps s ih =>
    rw [after_append_singleton, filter_append_singleton]
    by_cases hw : s.writer = w
    · rw [if_pos hw, List.getLast?_concat]
      cases s with
      | read w' =>
        obtain rfl : w' = w := hw
        rw [pending_read]
        simp
      | append w' call =>
        obtain rfl : w' = w := hw
        rw [pending_append]
        simp
    · rw [if_neg hw, List.append_nil, pending_step_of_ne _ hw, ih]

/-- In an interleaving of calls, who appends has read. -/
theorem pending_of_interleaves {calls : W → List (AuditCall F)} {steps : List (WriterStep W F)}
    (h : Interleaves calls steps) (file : Option (List Char)) {pre : List (WriterStep W F)} {w : W}
    {call : AuditCall F} (hpre : pre ++ [.append w call] <+: steps) :
    ∃ last, (after file pre).pending w = some last := by
  apply Option.isSome_iff_exists.mp
  rw [isSome_pending]
  obtain ⟨post, rfl⟩ := hpre
  have hw := h w
  rw [List.filter_append, filter_append_singleton] at hw
  have hsplit : pre.filter (·.writer = w) ++ append w call :: post.filter (·.writer = w) =
      ofCalls w (calls w) := by
    rw [← hw]
    simp [writer]
  exact getLast?_of_ofCalls hsplit

/-! ## The file -/

/-- The file after some steps: an entry for each completed call, in the order of their lines. What
a writer has pending is the last of the entries that were there when it read. -/
structure Written (s : AuditWriters W F) (steps : List (WriterStep W F))
    (es : List (AuditEntry F)) : Prop where
  recorded : ∀ e ∈ es, Recorded e
  text : s.file.getD [] = fileOf es
  records : List.Forall₂ (fun c e => AuditLog.Records c.2 e) (completed steps) es
  pending : ∀ w last, s.pending w = some last →
    last = (es.take (es.length - (completed (sinceRead w steps)).length)).getLast?.map
      AuditEntry.reloaded

/-- The entry that an append makes after its writer has read some of the entries. -/
theorem newEntry_take {es : List (AuditEntry F)} (hes : ∀ e ∈ es, Recorded e) (n : ℕ)
    (call : AuditCall F) :
    ∃ e, newEntry ((es.take n).getLast?.map AuditEntry.reloaded) call = .ok e ∧ Recorded e ∧
      AuditLog.Records call e := by
  cases hlast : (es.take n).getLast? with
  | none => exact ⟨_, newEntry_none call, ⟨0, [], call, .nil, rfl⟩, 0, [], rfl⟩
  | some e =>
    have he : Recorded e := hes e (List.mem_of_mem_take (List.mem_of_getLast? hlast))
    obtain ⟨k, -, hk, -⟩ := he.shape
    exact ⟨_, newEntry_reloaded he hk call, ⟨k + 1, _, call, paired_computeHash e, rfl⟩, _, _, rfl⟩

/-- A read keeps the file as it is written. -/
theorem written_read {s : AuditWriters W F} {steps : List (WriterStep W F)}
    {es : List (AuditEntry F)} (h : Written s steps es) (w : W) :
    Written (step s (.read w)) (steps ++ [.read w]) es := by
  refine ⟨h.recorded, h.text, ?_, ?_⟩
  · rw [completed_append]
    show List.Forall₂ _ (completed steps ++ []) es
    rw [List.append_nil]
    exact h.records
  · intro w' last hlast
    rw [sinceRead_append_singleton]
    by_cases hw : (WriterStep.read w : WriterStep W F).writer = w'
    · obtain rfl : w = w' := hw
      rw [pending_read] at hlast
      cases hlast
      rw [lastEntry_fileOf h.recorded h.text]
      simp [isReadOf, completed]
    · rw [pending_step_of_ne _ hw] at hlast
      have hpending := h.pending w' last hlast
      have hread : isReadOf w' (.read w : WriterStep W F) = false := decide_eq_false hw
      rw [hread]
      exact hpending

/-- An append writes the entry of its call behind the others. -/
theorem written_append {s : AuditWriters W F} {steps : List (WriterStep W F)}
    {es : List (AuditEntry F)} (h : Written s steps es) {w : W} {last : Option (AuditEntry F)}
    (hlast : s.pending w = some last) (call : AuditCall F) :
    ∃ e, newEntry last call = .ok e ∧
      Written (step s (.append w call)) (steps ++ [.append w call]) (es ++ [e]) := by
  obtain ⟨e, he, hrecorded, hrecords⟩ := newEntry_take h.recorded
    (es.length - (completed (sinceRead w steps)).length) call
  rw [← h.pending w last hlast] at he
  have hstep : step s (.append w call) =
      { file := AuditLog.append s.file e, pending := Function.update s.pending w none } := by
    simp only [step, hlast, he]
  refine ⟨e, he, ?_, ?_, ?_, ?_⟩
  · rw [List.forall_mem_append]
    exact ⟨h.recorded, List.forall_mem_singleton.mpr hrecorded⟩
  · rw [hstep]
    exact append_fileOf h.text e
  · rw [completed_append]
    exact List.rel_append h.records (.cons hrecords .nil)
  · intro w' last' hlast'
    have hw : (WriterStep.append w call).writer ≠ w' := by
      rintro rfl
      rw [writer, pending_append] at hlast'
      cases hlast'
    rw [pending_step_of_ne _ hw] at hlast'
    have hpending := h.pending w' last' hlast'
    -- one more entry, and one more completed since the last read of `w'`
    have hlen : (es ++ [e]).length -
        (completed (sinceRead w' (steps ++ [.append w call]))).length =
        es.length - (completed (sinceRead w' steps)).length := by
      rw [sinceRead_append_singleton]
      simp [isReadOf, completed, call?]
    rw [hlen, List.take_append_of_le_length (Nat.sub_le ..)]
    exact hpending

/-- After some entries of a sound log, the next one is numbered by how many they are. -/
theorem newEntry_take_of_sound {es : List (AuditEntry F)} (hes : ∀ e ∈ es, Recorded e)
    (h : Sound es) {n : ℕ} (hn : n ≤ es.length) (call : AuditCall F) :
    newEntry ((es.take n).getLast?.map AuditEntry.reloaded) call =
      .ok (entryOf n (lastHash (es.take n)) call) := by
  have hrecorded : ∀ e ∈ es.take n, Recorded e := fun e he => hes e (List.mem_of_mem_take he)
  have hsound : Sound (es.take n) := by
    rw [← List.take_append_drop n es] at h
    exact h.of_append
  have hholds : Holds (some (fileOf (es.take n))) (es.take n) := ⟨hrecorded, rfl, hsound⟩
  have hnext := newEntry_of_holds hholds call
  rwa [lastEntry_fileOf hrecorded rfl, List.length_take, Nat.min_eq_left hn] at hnext

/-- An entry keeps the log sound if and only if nothing was appended since its writer read. -/
theorem sound_append_iff {s : AuditWriters W F} {steps : List (WriterStep W F)}
    {es : List (AuditEntry F)} (h : Written s steps es) {w : W} {last : Option (AuditEntry F)}
    (hlast : s.pending w = some last) {call : AuditCall F} {e : AuditEntry F}
    (he : newEntry last call = .ok e) :
    Sound (es ++ [e]) ↔ Sound es ∧ completed (sinceRead w steps) = [] := by
  rw [sound_append_singleton]
  refine and_congr_right fun hsound => ?_
  have hlen : (completed (sinceRead w steps)).length ≤ es.length := by
    rw [← h.records.length_eq]
    exact length_completed_sinceRead w steps
  rw [h.pending w last hlast, newEntry_take_of_sound h.recorded hsound (Nat.sub_le ..)] at he
  cases he
  rw [tip_eq_lastHash, ← List.length_eq_zero_iff]
  constructor
  · rintro ⟨hseq, -⟩
    have hnumber := JsonValue.int.inj hseq
    omega
  · intro hzero
    rw [hzero, Nat.sub_zero, List.take_length]
    exact ⟨rfl, rfl⟩

/-- In an interleaving of calls, every one adds its entry, and the log stays sound as long as it is
undisturbed. -/
theorem written_of_interleaves {calls : W → List (AuditCall F)} {steps : List (WriterStep W F)}
    (h : Interleaves calls steps) {file : Option (List Char)}
    (hfile : file = none ∨ file = some []) {pre : List (WriterStep W F)} (hpre : pre <+: steps) :
    ∃ es, Written (after file pre) pre es ∧ (Sound es ↔ WriterStep.Undisturbed pre) := by
  induction pre using List.reverseRecOn with
  | nil =>
    refine ⟨[], ⟨by simp, (holds_nil hfile).text, .nil, by simp [after]⟩, ?_⟩
    exact iff_of_true sound_nil fun pre w call hpre => by simp at hpre
  | append_singleton pre s ih =>
    obtain ⟨es, hwritten, hsound⟩ := ih ((List.prefix_append pre [s]).trans hpre)
    rw [after_append_singleton, undisturbed_append_singleton]
    cases s with
    | read w =>
      refine ⟨es, written_read hwritten w, hsound.trans ?_⟩
      simp
    | append w call =>
      obtain ⟨last, hlast⟩ := pending_of_interleaves h file hpre
      obtain ⟨e, he, hnext⟩ := written_append hwritten hlast call
      refine ⟨es ++ [e], hnext, ?_⟩
      rw [sound_append_iff hwritten hlast he, hsound]
      refine and_congr_right fun _ => ⟨?_, fun hall => hall w call rfl⟩
      rintro hnone w' call' heq
      cases heq
      exact hnone

/-! ## Main result -/

/-- However the calls of the writers are interleaved, the log has one entry for each call. `verify`
accepts it, and the numbers are distinct, if and only if no call appends between the read of another
call and its append. -/
theorem interleaved_log_iff {calls : W → List (AuditCall F)} {steps : List (WriterStep W F)}
    (h : Interleaves calls steps) {file : Option (List Char)}
    (hfile : file = none ∨ file = some []) :
    ∃ es, entries (after file steps).file = .ok (es.map AuditEntry.reloaded) ∧
      List.Forall₂ (fun c e => AuditLog.Records c.2 e) (completed steps) es ∧
      (∀ w, (completed steps).filter (·.1 = w) = (calls w).map fun call => (w, call)) ∧
      (verify F (after file steps).file = .ok true ∧ (es.map AuditEntry.seq).Nodup ↔
        WriterStep.Undisturbed steps) := by
  obtain ⟨es, hwritten, hsound⟩ := written_of_interleaves h hfile List.prefix_rfl
  refine ⟨es, entries_fileOf hwritten.recorded hwritten.text, hwritten.records,
    completed_filter h, ?_⟩
  rw [verify_fileOf_iff hwritten.recorded hwritten.text, hsound]
  exact and_iff_left_of_imp fun hundisturbed => (hsound.mpr hundisturbed).nodup

end Interleavings

section Examples

local instance raceFloats : JsonFloat ℕ := .tenths

local instance raceDigests : Hashlib := .checksum

/-- Two calls of two writers, one after the other. -/
theorem interleaved_log_iff_serial :
    let call : AuditCall ℕ := { runId := [], prompt := "p", output := "o", time := 5 }
    let steps : List (WriterStep Bool ℕ) :=
      [.read false, .append false call, .read true, .append true call]
    ∃ es, entries (after none steps).file = .ok (es.map AuditEntry.reloaded) ∧
      List.Forall₂ (fun c e => AuditLog.Records c.2 e) (completed steps) es ∧
      (∀ w, (completed steps).filter (·.1 = w) = [(w, call)]) ∧
      (verify ℕ (after none steps).file = .ok true ∧ (es.map AuditEntry.seq).Nodup ↔
        WriterStep.Undisturbed steps) := by
  intro call steps
  have hinterleaves : Interleaves (fun _ => [call]) steps := by
    intro w
    cases w <;> rfl
  exact interleaved_log_iff hinterleaves (.inl rfl)

/-- Two writers read the empty log before either appends. -/
theorem disturbed_log_rejected :
    let call : AuditCall ℕ := { runId := [], prompt := "p", output := "o", time := 5 }
    let steps : List (WriterStep Bool ℕ) :=
      [.read false, .read true, .append false call, .append true call]
    Interleaves (fun _ => [call]) steps ∧ verify ℕ (after none steps).file ≠ .ok true := by
  intro call steps
  have hinterleaves : Interleaves (fun _ => [call]) steps := by
    intro w
    cases w <;> rfl
  refine ⟨hinterleaves, ?_⟩
  obtain ⟨es, hwritten, hsound⟩ :=
    written_of_interleaves hinterleaves (.inl rfl) List.prefix_rfl
  rw [Ne, verify_fileOf_iff hwritten.recorded hwritten.text, hsound]
  intro hundisturbed
  have hsince := hundisturbed [.read false, .read true, .append false call] true call
    List.prefix_rfl
  simp [sinceRead, isReadOf, completed, call?] at hsince

end Examples

end AuditWriters

end Chen
