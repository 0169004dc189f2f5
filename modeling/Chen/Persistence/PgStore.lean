import Chen.Library.Effect
import Chen.Persistence.RunStore
import Mathlib.Algebra.Group.Int.Defs

/-!
# The Postgres run store

`PostgresRunStore` offers what the run store offers. Its table has no columns for the trace and the
tenant, its types are narrower, and a run that is saved again updates only some of the columns.
-/

namespace Chen

open Effect

/-- What the driver and the server make of values. -/
class Postgres where
  /-- `datetime.fromisoformat(text)` as an instant. Without an offset it is a local time. -/
  fromIsoformat : String → Except Exn ℤ
  /-- `timestamp.isoformat()` of an instant that was stored. -/
  isoformat : ℤ → String
  /-- A `REAL`, which has single precision. -/
  real : ℚ → Except Exn ℚ
  fromIsoformat_isoformat : ∀ {text t}, fromIsoformat text = .ok t →
    fromIsoformat (isoformat t) = .ok t
  real_real : ∀ {x y}, real x = .ok y → real y = .ok y

open Postgres

/-- A row of the Postgres table `runs`. A `JSONB` is the value it holds. -/
structure PgRow where
  runId : String
  configHash : String
  timestamp : ℤ
  prompt : String
  output : String
  phase : ℤ
  backend : String
  router : Option String
  selectedExperts : List String
  totalTokens : ℤ
  totalCostUsd : ℚ
  totalLatencyMs : ℚ
  epu : Option ℚ
  kvTransfers : Option ℤ
deriving DecidableEq

/-- A text without NUL. No other is stored. -/
def NulFree (s : String) : Prop := '\x00' ∉ s.toList

/-- What the server says of a NUL. -/
def nulInText : Exn :=
  .other "CharacterNotInRepertoireError" "invalid byte sequence for encoding \"UTF8\": 0x00"

instance : DecidablePred NulFree := fun s => inferInstanceAs (Decidable ('\x00' ∉ s.toList))

namespace RunRecord

/-- The integers of a record. -/
def integers (r : RunRecord) : List ℤ := [r.phase, r.totalTokens, r.kvTransfers]

/-- The numbers of a record that are no integers. -/
def numbers (r : RunRecord) : List ℚ := [r.totalCostUsd, r.totalLatencyMs, r.epu]

/-- The texts of a record that Postgres has columns for. -/
def texts (r : RunRecord) : List String :=
  [r.runId, r.configHash, r.prompt, r.output, r.backend, r.router]

end RunRecord

/-- An `INTEGER` of SQLite. -/
def Int64 (n : ℤ) : Prop := -2 ^ 63 ≤ n ∧ n < 2 ^ 63

/-- An `INTEGER` of Postgres. -/
def Int32 (n : ℤ) : Prop := -2 ^ 31 ≤ n ∧ n < 2 ^ 31

instance : DecidablePred Int64 := fun _ => inferInstanceAs (Decidable (_ ∧ _))

instance : DecidablePred Int32 := fun _ => inferInstanceAs (Decidable (_ ∧ _))

/-- A check that raises. -/
def raiseIf (c : Prop) [Decidable c] (x : Exn) : Except Exn Unit := if c then .error x else .ok ()

/-- A check passes if its condition is not met. -/
theorem raiseIf_eq_ok_iff {c : Prop} [Decidable c] {x : Exn} {u : Unit} :
    raiseIf c x = .ok u ↔ ¬c := by
  unfold raiseIf
  split
  · next hc => exact iff_of_false nofun (not_not.mpr hc)
  · next hc => exact iff_of_true rfl hc

/-- A value as an option. -/
theorem toOption_eq_some_iff {α : Type} {x : Except Exn α} {a : α} :
    x.toOption = some a ↔ x = .ok a := by
  cases x with
  | ok b => simp [Except.toOption]
  | error e => simp [Except.toOption]

namespace PgRow

/-- The row of a record, given what is stored of its timestamp and its numbers. -/
def ofRecord (r : RunRecord) (timestamp : ℤ) (totalCostUsd totalLatencyMs epu : ℚ) : PgRow where
  runId := r.runId
  configHash := r.configHash
  timestamp := timestamp
  prompt := r.prompt
  output := r.output
  phase := r.phase
  backend := r.backend
  router := some r.router
  selectedExperts := r.selectedExperts
  totalTokens := r.totalTokens
  totalCostUsd := totalCostUsd
  totalLatencyMs := totalLatencyMs
  epu := some epu
  kvTransfers := some r.kvTransfers

/-- `ON CONFLICT (run_id) DO UPDATE SET`. -/
def update (row excluded : PgRow) : PgRow where
  runId := row.runId
  configHash := row.configHash
  timestamp := excluded.timestamp
  prompt := row.prompt
  output := excluded.output
  phase := row.phase
  backend := row.backend
  router := row.router
  selectedExperts := row.selectedExperts
  totalTokens := excluded.totalTokens
  totalCostUsd := excluded.totalCostUsd
  totalLatencyMs := excluded.totalLatencyMs
  epu := excluded.epu
  kvTransfers := excluded.kvTransfers

theorem runId_update (row excluded : PgRow) : (row.update excluded).runId = row.runId := rfl

theorem update_self (row : PgRow) : row.update row = row := rfl

/-- Of several updates the last one is left. -/
theorem update_update (row row₁ row₂ : PgRow) : (row.update row₁).update row₂ = row.update row₂ :=
  rfl

section

variable [Postgres]

/-- The row that the statement of `save` proposes. The timestamp is parsed first, then the driver
checks the numbers, and the server the texts. -/
def encode (r : RunRecord) : Except Exn PgRow := do
  let timestamp ← fromIsoformat r.timestamp
  raiseIf (∃ n ∈ r.integers, ¬Int32 n) (.other "DataError" "value out of int32 range")
  let totalCostUsd ← real r.totalCostUsd
  let totalLatencyMs ← real r.totalLatencyMs
  let epu ← real r.epu
  raiseIf (∃ s ∈ r.texts, ¬NulFree s) nulInText
  raiseIf (∃ s ∈ r.selectedExperts, ¬NulFree s)
    (.other "UntranslatableCharacterError" "unsupported Unicode escape sequence")
  pure (ofRecord r timestamp totalCostUsd totalLatencyMs epu)

/-- `_row_to_record`. -/
def toRecord (row : PgRow) : RunRecord where
  runId := row.runId
  configHash := row.configHash
  timestamp := isoformat row.timestamp
  prompt := row.prompt
  output := row.output
  phase := row.phase
  backend := row.backend
  router := row.router.getD ""
  selectedExperts := row.selectedExperts
  totalTokens := row.totalTokens
  totalCostUsd := row.totalCostUsd
  totalLatencyMs := row.totalLatencyMs
  epu := row.epu.getD 0
  kvTransfers := row.kvTransfers.getD 0

end

end PgRow

/-- The Postgres table `runs`. -/
structure PostgresRunStore where
  rows : List PgRow := []

namespace PostgresRunStore

variable [Postgres]

/-- `save`. -/
def save (store : PostgresRunStore) (record : RunRecord) : Except Exn PostgresRunStore := do
  let row ← PgRow.encode record
  pure ⟨LastWrite.upsert PgRow.runId PgRow.update store.rows row⟩

/-- `get`. The id is a text as well. -/
def get (store : PostgresRunStore) (runId : String) : Except Exn (Option RunRecord) :=
  if NulFree runId then .ok ((LastWrite.select PgRow.runId store.rows runId).map PgRow.toRecord)
  else .error nulInText

end PostgresRunStore

/-- A record whose integers SQLite has room for. -/
def Bindable (r : RunRecord) : Prop := ∀ n ∈ r.integers, Int64 n

instance : DecidablePred Bindable := fun r =>
  inferInstanceAs (Decidable (∀ n ∈ r.integers, Int64 n))

/-- The values of a record are bound to the parameters of a statement. -/
def RunRecord.bound (r : RunRecord) : Except Exn RunRecord :=
  if Bindable r then .ok r
  else .error (.other "OverflowError" "Python int too large to convert to SQLite INTEGER")

/-- `RunStore.save` with the binding of its parameters. -/
def RunStore.bindAndSave (store : RunStore) (record : RunRecord) : Except Exn RunStore :=
  store.save <$> record.bound

/-- A series of saves. After an exception the store is as it was, and the next save follows. -/
def saveAll {σ : Type} (save : σ → RunRecord → Except Exn σ) (store : σ)
    (records : List RunRecord) : σ :=
  records.foldl (fun store record => (save store record).toOption.getD store) store

/-! ## What a row was made of -/

section Rows

variable [Postgres]

/-- A record that `save` accepts. -/
structure Storable (r : RunRecord) : Prop where
  timestamp : ∃ t, fromIsoformat r.timestamp = .ok t
  integers : ∀ n ∈ r.integers, Int32 n
  numbers : ∀ x ∈ r.numbers, ∃ y, real x = .ok y
  texts : ∀ s ∈ r.texts, NulFree s
  experts : ∀ s ∈ r.selectedExperts, NulFree s

namespace PgRow

/-- A row has what the record has, except for the timestamp and the numbers. -/
theorem encode_eq_ok_iff {r : RunRecord} {row : PgRow} :
    encode r = .ok row ↔
      ∃ timestamp totalCostUsd totalLatencyMs epu,
        fromIsoformat r.timestamp = .ok timestamp ∧ real r.totalCostUsd = .ok totalCostUsd ∧
        real r.totalLatencyMs = .ok totalLatencyMs ∧ real r.epu = .ok epu ∧
        (∀ n ∈ r.integers, Int32 n) ∧ (∀ s ∈ r.texts, NulFree s) ∧
        (∀ s ∈ r.selectedExperts, NulFree s) ∧
        ofRecord r timestamp totalCostUsd totalLatencyMs epu = row := by
  have hpure {row row' : PgRow} : (pure row : Except Exn PgRow) = .ok row' ↔ row = row' :=
    Except.ok.injEq row row' ▸ Iff.rfl
  simp only [encode, except_bind_eq_ok, raiseIf_eq_ok_iff, hpure, exists_const, not_exists, not_and,
    not_not]
  constructor
  · rintro ⟨t, ht, hints, c, hc, l, hl, e, he, htexts, hexperts, hrow⟩
    exact ⟨t, c, l, e, ht, hc, hl, he, hints, htexts, hexperts, hrow⟩
  · rintro ⟨t, c, l, e, ht, hc, hl, he, hints, htexts, hexperts, hrow⟩
    exact ⟨t, ht, hints, c, hc, l, hl, e, he, htexts, hexperts, hrow⟩

/-- A record can be stored if it is made into a row. -/
theorem storable_iff {r : RunRecord} : Storable r ↔ ∃ row, encode r = .ok row := by
  simp only [encode_eq_ok_iff]
  constructor
  · rintro ⟨⟨t, ht⟩, hints, hnumbers, htexts, hexperts⟩
    simp only [RunRecord.numbers, List.forall_mem_cons] at hnumbers
    obtain ⟨⟨c, hc⟩, ⟨l, hl⟩, ⟨e, he⟩, -⟩ := hnumbers
    exact ⟨_, t, c, l, e, ht, hc, hl, he, hints, htexts, hexperts, rfl⟩
  · rintro ⟨row, t, c, l, e, ht, hc, hl, he, hints, htexts, hexperts, -⟩
    exact ⟨⟨t, ht⟩, hints, by simp [RunRecord.numbers, hc, hl, he], htexts, hexperts⟩

/-- The row has the record's id. -/
theorem runId_of_encode {r : RunRecord} {row : PgRow} (h : encode r = .ok row) :
    row.runId = r.runId := by
  obtain ⟨t, c, l, e, -, -, -, -, -, -, -, rfl⟩ := encode_eq_ok_iff.mp h
  rfl

end PgRow

instance : DecidablePred Storable := fun r =>
  match h : PgRow.encode r with
  | .ok row => isTrue (PgRow.storable_iff.mpr ⟨row, h⟩)
  | .error _ => isFalse fun hr => by
    obtain ⟨row, hrow⟩ := PgRow.storable_iff.mp hr
    rw [h] at hrow
    cases hrow

/-- Two records that differ at most in how they write the timestamp. -/
structure SameRecord (r r' : RunRecord) : Prop where
  timestamp : fromIsoformat r.timestamp = fromIsoformat r'.timestamp
  fields : { r with timestamp := r'.timestamp } = r'

/-- Single precision loses nothing of the numbers. -/
def Exact (r : RunRecord) : Prop := ∀ x ∈ r.numbers, real x = .ok x

/-- `r` repeats what an update of `r₁` does not change. -/
structure Repeats (r₁ r : RunRecord) : Prop where
  configHash : r₁.configHash = r.configHash
  prompt : r₁.prompt = r.prompt
  phase : r₁.phase = r.phase
  backend : r₁.backend = r.backend
  router : r₁.router = r.router
  selectedExperts : r₁.selectedExperts = r.selectedExperts

/-- What is read where `r₁` was saved first and `r` last. -/
theorem sameRecord_toRecord_update_iff {r₁ r : RunRecord} {row₁ row : PgRow}
    (h₁ : PgRow.encode r₁ = .ok row₁) (h : PgRow.encode r = .ok row)
    (hid : r₁.runId = r.runId) :
    SameRecord r (row₁.update row).toRecord ↔
      Exact r ∧ r.traceId = "" ∧ r.tenantId = "" ∧ Repeats r₁ r := by
  obtain ⟨t₁, c₁, l₁, e₁, -, -, -, -, -, -, -, rfl⟩ := PgRow.encode_eq_ok_iff.mp h₁
  obtain ⟨t, c, l, e, ht, hc, hl, he, -, -, -, rfl⟩ := PgRow.encode_eq_ok_iff.mp h
  constructor
  · rintro ⟨-, hfields⟩
    simp only [PgRow.toRecord, PgRow.update, PgRow.ofRecord, RunRecord.mk.injEq,
      Option.getD_some, true_and] at hfields
    obtain ⟨-, hconfig, hprompt, hphase, hbackend, hrouter, hexperts, hcost, hlatency, hepu, htrace,
      htenant⟩ := hfields
    -- the seven fields that an update writes are those of `r` already
    refine ⟨?_, htrace, htenant, hconfig.symm, hprompt.symm, hphase.symm, hbackend.symm,
      hrouter.symm, hexperts.symm⟩
    simp only [Exact, RunRecord.numbers, List.forall_mem_cons]
    exact ⟨by rw [hc, hcost], by rw [hl, hlatency], by rw [he, hepu], nofun⟩
  · rintro ⟨hexact, htrace, htenant, hconfig, hprompt, hphase, hbackend, hrouter, hexperts⟩
    simp only [Exact, RunRecord.numbers, List.forall_mem_cons] at hexact
    obtain ⟨hcost, hlatency, hepu, -⟩ := hexact
    rw [hc, Except.ok.injEq] at hcost
    rw [hl, Except.ok.injEq] at hlatency
    rw [he, Except.ok.injEq] at hepu
    refine ⟨ht.trans (fromIsoformat_isoformat ht).symm, ?_⟩
    simp only [PgRow.toRecord, PgRow.update, PgRow.ofRecord, RunRecord.mk.injEq,
      Option.getD_some, true_and]
    exact ⟨hid.symm, hconfig.symm, hprompt.symm, hphase.symm, hbackend.symm, hrouter.symm,
      hexperts.symm, hcost.symm, hlatency.symm, hepu.symm, htrace, htenant⟩

/-- A record that is read back was one that `save` accepts. -/
theorem SameRecord.storable {r r₁ r₂ : RunRecord} {row₁ row₂ : PgRow}
    (h : SameRecord r (row₁.update row₂).toRecord) (h₁ : PgRow.encode r₁ = .ok row₁)
    (h₂ : PgRow.encode r₂ = .ok row₂) : Storable r := by
  obtain ⟨htimestamp, hfields⟩ := h
  obtain ⟨t₁, c₁, l₁, e₁, -, -, -, -, hints₁, htexts₁, hexperts₁, rfl⟩ :=
    PgRow.encode_eq_ok_iff.mp h₁
  obtain ⟨t, c, l, e, ht, hc, hl, he, hints, htexts, -, rfl⟩ := PgRow.encode_eq_ok_iff.mp h₂
  simp only [PgRow.toRecord, PgRow.update, PgRow.ofRecord, RunRecord.mk.injEq,
    Option.getD_some, true_and] at hfields
  obtain ⟨hid, hconfig, hprompt, houtput, hphase, hbackend, hrouter, hexperts, htokens, hcost,
    hlatency, hepu, htransfers, -, -⟩ := hfields
  simp only [RunRecord.integers, List.forall_mem_cons] at hints₁ hints
  simp only [RunRecord.texts, List.forall_mem_cons] at htexts₁ htexts
  constructor
  · exact ⟨t, htimestamp.trans (fromIsoformat_isoformat ht)⟩
  · simp only [RunRecord.integers, List.forall_mem_cons]
    rw [hphase, htokens, htransfers]
    -- The phase is of the first row, which the update does not touch, the counts are of the second.
    exact ⟨hints₁.1, hints.2.1, hints.2.2⟩
  · simp only [RunRecord.numbers, List.forall_mem_cons]
    rw [hcost, hlatency, hepu]
    exact ⟨⟨c, real_real hc⟩, ⟨l, real_real hl⟩, ⟨e, real_real he⟩, nofun⟩
  · obtain ⟨hnid, hnconfig, hnprompt, -, hnbackend, hnrouter, -⟩ := htexts₁
    simp only [RunRecord.texts, List.forall_mem_cons]
    rw [hid, hconfig, hprompt, houtput, hbackend, hrouter]
    exact ⟨hnid, hnconfig, hnprompt, htexts.2.2.2.1, hnbackend, hnrouter, nofun⟩
  · rwa [hexperts]

end Rows

/-! ## A series of saves -/

/-- A series of saves writes what the records that were accepted come to. -/
theorem saveAll_eq_foldl {σ ρ : Type} {save : σ → RunRecord → Except Exn σ}
    {accept : RunRecord → Except Exn ρ} {write : σ → ρ → σ}
    (hsave : ∀ store r, save store r = write store <$> accept r) (store : σ)
    (records : List RunRecord) :
    saveAll save store records =
      (records.filterMap fun r => (accept r).toOption).foldl write store := by
  unfold saveAll
  induction records generalizing store with
  | nil => rfl
  | cons r records ih =>
    rw [List.foldl_cons, ih, hsave, List.filterMap_cons]
    cases accept r with
    | ok row => rfl
    | error x => rfl

/-- The run store has the last record that it could bind. -/
theorem get_saveAll_bindAndSave (records : List RunRecord) (runId : String) :
    (saveAll RunStore.bindAndSave {} records).get runId =
      .ok (LastWrite.last RunRecord.runId (records.filter Bindable) runId) := by
  have hbound : (fun r : RunRecord => r.bound.toOption) = Option.guard fun r => Bindable r := by
    funext r
    unfold RunRecord.bound
    split
    · next hr => simp [Except.toOption, Option.guard, hr]
    · next hr => simp [Except.toOption, Option.guard, hr]
  have hsave (store : RunStore) (r : RunRecord) :
      store.bindAndSave r = store.save <$> r.bound := rfl
  rw [saveAll_eq_foldl hsave, hbound, List.filterMap_eq_filter, RunStore.get_foldl_save]
  cases LastWrite.last RunRecord.runId (records.filter Bindable) runId with
  | none => rfl
  | some r => rfl

section Rows

variable [Postgres]

/-- A record can be stored if it is made into a row. -/
theorem isSome_encode (r : RunRecord) : (PgRow.encode r).toOption.isSome = decide (Storable r) := by
  cases h : PgRow.encode r with
  | ok row => simp [Except.toOption, PgRow.storable_iff, h]
  | error x => simp [Except.toOption, PgRow.storable_iff, h]

/-- The rows of the Postgres store are updates of the first rows by the last. -/
theorem select_saveAll_save (records : List RunRecord) (runId : String) :
    LastWrite.select PgRow.runId (saveAll PostgresRunStore.save {} records).rows runId =
      Option.map₂ PgRow.update
        ((LastWrite.first RunRecord.runId (records.filter Storable) runId).bind fun r =>
          (PgRow.encode r).toOption)
        ((LastWrite.last RunRecord.runId (records.filter Storable) runId).bind fun r =>
          (PgRow.encode r).toOption) := by
  let write (store : PostgresRunStore) (row : PgRow) : PostgresRunStore :=
    ⟨LastWrite.upsert PgRow.runId PgRow.update store.rows row⟩
  have hsave (store : PostgresRunStore) (r : RunRecord) :
      store.save r = write store <$> PgRow.encode r := rfl
  have hrows (rows : List PgRow) (store : PostgresRunStore) :
      (rows.foldl write store).rows =
        rows.foldl (LastWrite.upsert PgRow.runId PgRow.update) store.rows := by
    induction rows generalizing store with
    | nil => rfl
    | cons row rows ih => exact ih _
  have hid (r : RunRecord) (row : PgRow) (h : (PgRow.encode r).toOption = some row) :
      row.runId = r.runId := PgRow.runId_of_encode (toOption_eq_some_iff.mp h)
  rw [saveAll_eq_foldl hsave, hrows]
  refine (LastWrite.select_foldl_upsert PgRow.runId_update PgRow.update_self PgRow.update_update
    _ _).trans ?_
  rw [LastWrite.first_filterMap hid, LastWrite.last_filterMap hid]
  simp only [isSome_encode]

/-- Both return, and what they return is the same. -/
def SameGet (x y : Except Exn (Option RunRecord)) : Prop :=
  ∃ found found', x = .ok found ∧ y = .ok found' ∧ Option.Rel SameRecord found found'

/-- The last record that SQLite took can be stored as it is, and the first that Postgres took has
the same in the columns that are not updated. -/
structure Interchangeable (records : List RunRecord) (runId : String) : Prop where
  id : NulFree runId
  last : ∀ r, LastWrite.last RunRecord.runId (records.filter Bindable) runId = some r →
    Storable r ∧ Exact r ∧ r.traceId = "" ∧ r.tenantId = ""
  first : ∀ r, LastWrite.last RunRecord.runId (records.filter Bindable) runId = some r →
    ∀ r₁, LastWrite.first RunRecord.runId (records.filter Storable) runId = some r₁ → Repeats r₁ r

/-- What can be stored in PostgreSQL can be bound in SQLite. -/
theorem Storable.bindable {r : RunRecord} (h : Storable r) : Bindable r := by
  intro n hn
  have hint := h.integers n hn
  unfold Int32 at hint
  unfold Int64
  omega

/-- The last record of an id that both stores take is the last that PostgreSQL takes. -/
theorem last_storable {records : List RunRecord} {runId : String} {r : RunRecord}
    (h : LastWrite.last RunRecord.runId (records.filter Bindable) runId = some r)
    (hr : Storable r) :
    LastWrite.last RunRecord.runId (records.filter Storable) runId = some r := by
  have hfilter : records.filter Storable = (records.filter Bindable).filter Storable := by
    rw [List.filter_filter]
    apply List.filter_congr
    intro r' _
    by_cases hr' : Storable r'
    · simp [hr', hr'.bindable]
    · simp [hr']
  rw [hfilter]
  exact LastWrite.last_filter RunRecord.runId h (by simpa using hr)

/-- The rows that an accepted record is updated in. -/
theorem select_of_storable {records : List RunRecord} {runId : String} {r₁ r : RunRecord}
    (hfirst : LastWrite.first RunRecord.runId (records.filter Storable) runId = some r₁)
    (hlast : LastWrite.last RunRecord.runId (records.filter Storable) runId = some r) :
    ∃ row₁ row, PgRow.encode r₁ = .ok row₁ ∧ PgRow.encode r = .ok row ∧ r₁.runId = r.runId ∧
      LastWrite.select PgRow.runId (saveAll PostgresRunStore.save {} records).rows runId =
        some (row₁.update row) := by
  obtain ⟨hmem₁, hid₁⟩ := LastWrite.mem_of_first RunRecord.runId hfirst
  obtain ⟨hmem, hid⟩ := LastWrite.mem_of_last RunRecord.runId hlast
  obtain ⟨row₁, h₁⟩ := PgRow.storable_iff.mp (of_decide_eq_true (List.mem_filter.mp hmem₁).2)
  obtain ⟨row, h⟩ := PgRow.storable_iff.mp (of_decide_eq_true (List.mem_filter.mp hmem).2)
  refine ⟨row₁, row, h₁, h, hid₁.trans hid.symm, ?_⟩
  rw [select_saveAll_save, hfirst, hlast]
  simp [h₁, h, Except.toOption]

/-- Two records that are found are compared as records. -/
theorem rel_some_iff {r r' : RunRecord} :
    Option.Rel SameRecord (some r) (some r') ↔ SameRecord r r' :=
  ⟨fun | .some h => h, .some⟩

/-- What is read back can be stored. -/
theorem storable_of_rel {records : List RunRecord} {runId : String} {r : RunRecord}
    (h : Option.Rel SameRecord (some r) ((LastWrite.select PgRow.runId
      (saveAll PostgresRunStore.save {} records).rows runId).map PgRow.toRecord)) :
    Storable r := by
  cases hselect : LastWrite.select PgRow.runId
      (saveAll PostgresRunStore.save {} records).rows runId with
  | none =>
    rw [hselect] at h
    cases h
  | some row =>
    rw [hselect] at h
    have hsame := rel_some_iff.mp h
    rw [select_saveAll_save] at hselect
    obtain ⟨row₁, row₂, hrow₁, hrow₂, rfl⟩ := Option.mem_map₂_iff.mp hselect
    obtain ⟨r₁, -, h₁⟩ := Option.bind_eq_some_iff.mp hrow₁
    obtain ⟨r₂, -, h₂⟩ := Option.bind_eq_some_iff.mp hrow₂
    exact hsame.storable (toOption_eq_some_iff.mp h₁) (toOption_eq_some_iff.mp h₂)

/-- What is read of the last record, if Postgres accepted it. -/
theorem rel_iff_of_storable {records : List RunRecord} {runId : String} {r : RunRecord}
    (hlast : LastWrite.last RunRecord.runId (records.filter Bindable) runId = some r)
    (hr : Storable r) :
    Option.Rel SameRecord (some r) ((LastWrite.select PgRow.runId
        (saveAll PostgresRunStore.save {} records).rows runId).map PgRow.toRecord) ↔
      Exact r ∧ r.traceId = "" ∧ r.tenantId = "" ∧
        ∀ r₁, LastWrite.first RunRecord.runId (records.filter Storable) runId = some r₁ →
          Repeats r₁ r := by
  have hstorable := last_storable hlast hr
  obtain ⟨r₁, hfirst⟩ := LastWrite.exists_first_of_last RunRecord.runId hstorable
  obtain ⟨row₁, row, h₁, h, hid, hselect⟩ := select_of_storable hfirst hstorable
  rw [hselect, Option.map_some, rel_some_iff, sameRecord_toRecord_update_iff h₁ h hid, hfirst]
  simp

/-- Two answers that did not raise are compared by what they found. -/
theorem sameGet_ok_iff {found found' : Option RunRecord} :
    SameGet (.ok found) (.ok found') ↔ Option.Rel SameRecord found found' := by
  constructor
  · rintro ⟨_, _, hfound, hfound', hrel⟩
    cases hfound
    cases hfound'
    exact hrel
  · exact fun hrel => ⟨found, found', rfl, rfl, hrel⟩

/-- The two stores return the same under an id if and only if it can be stored, and the last record
that SQLite took for it too, in single precision, without a trace or a tenant, and in the columns
that are not updated like the first record that Postgres took. -/
theorem interchangeable_iff (records : List RunRecord) (runId : String) :
    SameGet ((saveAll RunStore.bindAndSave {} records).get runId)
        ((saveAll PostgresRunStore.save {} records).get runId) ↔
      Interchangeable records runId := by
  rw [get_saveAll_bindAndSave, PostgresRunStore.get]
  by_cases hid : NulFree runId
  swap
  · rw [if_neg hid]
    exact iff_of_false (fun ⟨_, _, _, hget, _⟩ => nomatch hget) fun h => hid h.id
  rw [if_pos hid, sameGet_ok_iff]
  cases hlast : LastWrite.last RunRecord.runId (records.filter Bindable) runId with
  | none =>
    -- what cannot be bound cannot be stored in PostgreSQL either
    have hnone : ∀ r ∈ records.filter Storable, r.runId ≠ runId := by
      intro r hr
      obtain ⟨hmem, hstorable⟩ := List.mem_filter.mp hr
      have hbindable := (of_decide_eq_true hstorable).bindable
      exact (LastWrite.last_eq_none_iff RunRecord.runId).mp hlast r
        (List.mem_filter.mpr ⟨hmem, decide_eq_true hbindable⟩)
    rw [select_saveAll_save, (LastWrite.first_eq_none_iff RunRecord.runId).mpr hnone]
    refine iff_of_true .none ⟨hid, ?_, ?_⟩
    · intro r hr
      rw [hlast] at hr
      cases hr
    · intro r hr
      rw [hlast] at hr
      cases hr
  | some r =>
    constructor
    · intro hrel
      have hr := storable_of_rel hrel
      obtain ⟨hexact, htrace, htenant, hfirst⟩ := (rel_iff_of_storable hlast hr).mp hrel
      refine ⟨hid, ?_, ?_⟩
      · intro r' hr'
        rw [hlast] at hr'
        cases hr'
        exact ⟨hr, hexact, htrace, htenant⟩
      · intro r' hr'
        rw [hlast] at hr'
        cases hr'
        exact hfirst
    · intro h
      obtain ⟨hr, hexact, htrace, htenant⟩ := h.last r hlast
      exact (rel_iff_of_storable hlast hr).mpr ⟨hexact, htrace, htenant, h.first r hlast⟩

end Rows

/-! ## Two saves of one run -/

/-- One instant, and small whole numbers. -/
@[reducible] def Postgres.whole : Postgres where
  fromIsoformat text :=
    if text = "1970-01-01T00:00:00+00:00" then .ok 0
    else .error (.value ("Invalid isoformat string: '" ++ text ++ "'"))
  isoformat _ := "1970-01-01T00:00:00+00:00"
  real x :=
    if x.den = 1 ∧ -2 ^ 24 ≤ x ∧ x ≤ 2 ^ 24 then .ok x
    else .error (.other "DataError" "value out of float32 range")
  fromIsoformat_isoformat {text t} h := by
    split at h
    · exact h
    · cases h
  real_real {x y} h := by
    split at h
    · next hx =>
      cases h
      rw [if_pos hx]
    · cases h

section Examples

local instance wholePostgres : Postgres := .whole

/-- A run of a mock backend. -/
def mockRun (prompt output : String) : RunRecord where
  runId := "r"
  configHash := "c"
  prompt := prompt
  output := output
  phase := 1
  backend := "mock"
  timestamp := "1970-01-01T00:00:00+00:00"

/-- A run that is saved again with a new output. -/
theorem interchangeable_iff_new_output :
    SameGet ((saveAll RunStore.bindAndSave {} [mockRun "p" "o", mockRun "p" "o2"]).get "r")
      ((saveAll PostgresRunStore.save {} [mockRun "p" "o", mockRun "p" "o2"]).get "r") := by
  apply (interchangeable_iff _ _).mpr
  have hlast : LastWrite.last RunRecord.runId
      ([mockRun "p" "o", mockRun "p" "o2"].filter Bindable) "r" = some (mockRun "p" "o2") := by
    decide
  have hfirst : LastWrite.first RunRecord.runId
      ([mockRun "p" "o", mockRun "p" "o2"].filter Storable) "r" = some (mockRun "p" "o") := by
    decide
  refine ⟨by decide, ?_, ?_⟩
  · intro r hr
    cases hlast.symm.trans hr
    exact ⟨by decide, by unfold Exact; decide, rfl, rfl⟩
  · intro r hr r₁ hr₁
    cases hlast.symm.trans hr
    cases hfirst.symm.trans hr₁
    exact ⟨rfl, rfl, rfl, rfl, rfl, rfl⟩

/-- Of a run that is saved again with another prompt, Postgres has the first prompt and the second
output. -/
theorem upsert_mixes_runs :
    ¬∀ records runId, SameGet ((saveAll RunStore.bindAndSave {} records).get runId)
      ((saveAll PostgresRunStore.save {} records).get runId) := by
  intro h
  obtain ⟨found, found', hget, hget', hrel⟩ := h [mockRun "p" "o", mockRun "q" "o2"] "r"
  have hsqlite : found = some (mockRun "q" "o2") := by
    rw [get_saveAll_bindAndSave] at hget
    cases hget
    decide
  have hpostgres : found' = some (mockRun "p" "o2") := by
    have hp : (saveAll PostgresRunStore.save {} [mockRun "p" "o", mockRun "q" "o2"]).get "r" =
      .ok (some (mockRun "p" "o2")) := by decide
    rw [hp] at hget'
    cases hget'
    rfl
  subst hsqlite hpostgres
  have hprompt := congrArg RunRecord.prompt (rel_some_iff.mp hrel).fields
  revert hprompt
  decide

end Examples

end Chen
