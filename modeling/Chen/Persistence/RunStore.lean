import Chen.Library.LastWrite
import Chen.Python.Json
import Mathlib.Data.Rat.Defs

/-!
# The run store

Persisted pipeline runs. A record becomes a row of the table `runs`, whose primary key is the run's
id; `INSERT OR REPLACE` removes the row that has the new row's key.
-/

namespace Chen

/-- One persisted pipeline run. -/
structure RunRecord where
  runId : String
  configHash : String
  prompt : String
  output : String
  phase : ℤ
  backend : String
  router : String := ""
  selectedExperts : List String := []
  totalTokens : ℤ := 0
  totalCostUsd : ℚ := 0
  totalLatencyMs : ℚ := 0
  epu : ℚ := 0
  kvTransfers : ℤ := 0
  timestamp : String
  traceId : String := ""
  tenantId : String := ""
deriving DecidableEq

/-- A row of the table `runs`. A column that may be null is an `Option`. -/
structure RunRow where
  runId : String
  configHash : String
  timestamp : String
  prompt : String
  output : String
  phase : ℤ
  backend : String
  router : Option String
  selectedExperts : String
  totalTokens : ℤ
  totalCostUsd : ℚ
  totalLatencyMs : ℚ
  epu : Option ℚ
  kvTransfers : Option ℤ
  traceId : Option String
  tenantId : Option String
deriving DecidableEq

namespace RunRecord

/-- `to_dict`, as the values of the columns. -/
def toDict (r : RunRecord) : RunRow where
  runId := r.runId
  configHash := r.configHash
  timestamp := r.timestamp
  prompt := r.prompt
  output := r.output
  phase := r.phase
  backend := r.backend
  router := some r.router
  selectedExperts := Json.dumps (.list (r.selectedExperts.map .str))
  totalTokens := r.totalTokens
  totalCostUsd := r.totalCostUsd
  totalLatencyMs := r.totalLatencyMs
  epu := some r.epu
  kvTransfers := some r.kvTransfers
  traceId := some r.traceId
  tenantId := some r.tenantId

/-- `from_row`. The record has a list of strings for the experts: where the column holds JSON of
another kind, this raises, and the source would put that value in the record. -/
def fromRow (row : RunRow) : Except Exn RunRecord := do
  let selectedExperts ← Json.loadsStrings row.selectedExperts
  pure
    { runId := row.runId
      configHash := row.configHash
      timestamp := row.timestamp
      prompt := row.prompt
      output := row.output
      phase := row.phase
      backend := row.backend
      router := row.router.getD ""
      selectedExperts
      totalTokens := row.totalTokens
      totalCostUsd := row.totalCostUsd
      totalLatencyMs := row.totalLatencyMs
      epu := row.epu.getD 0
      kvTransfers := row.kvTransfers.getD 0
      traceId := row.traceId.getD ""
      tenantId := row.tenantId.getD "" }

/-- A record survives the way through its row. -/
theorem fromRow_toDict (r : RunRecord) : fromRow r.toDict = .ok r := by
  rw [fromRow, toDict, Json.loadsStrings_dumps]
  rfl

end RunRecord

/-- The table `runs`. -/
structure RunStore where
  rows : List RunRow := []

namespace RunStore

/-- `save`: insert or replace. -/
def save (store : RunStore) (record : RunRecord) : RunStore :=
  ⟨LastWrite.replace RunRow.runId store.rows record.toDict⟩

/-- `get`: a single run by id, or none. -/
def get (store : RunStore) (runId : String) : Except Exn (Option RunRecord) :=
  match LastWrite.select RunRow.runId store.rows runId with
  | some row => some <$> RunRecord.fromRow row
  | none => .ok none

/-- What is saved is found. -/
theorem get_save (store : RunStore) (record : RunRecord) :
    (store.save record).get record.runId = .ok (some record) := by
  have hrow : LastWrite.select RunRow.runId (store.save record).rows record.runId =
      some record.toDict :=
    LastWrite.select_replace_self RunRow.runId store.rows record.toDict
  rw [get, hrow]
  simp only [RunRecord.fromRow_toDict]
  rfl

/-- After a series of saves, `get` returns the last record saved under the id. -/
theorem get_foldl_save (store : RunStore) (records : List RunRecord) (runId : String) :
    (records.foldl save store).get runId =
      match LastWrite.last RunRecord.runId records runId with
      | some record => .ok (some record)
      | none => store.get runId := by
  have hrows : (records.foldl save store).rows =
      (records.map RunRecord.toDict).foldl (LastWrite.replace RunRow.runId) store.rows := by
    rw [List.foldl_map]
    induction records generalizing store with
    | nil => rfl
    | cons record records ih => exact ih (store.save record)
  have hlast : LastWrite.last RunRow.runId (records.map RunRecord.toDict) runId =
      (LastWrite.last RunRecord.runId records runId).map RunRecord.toDict := by
    rw [LastWrite.last, LastWrite.last, ← List.map_reverse, List.find?_map]
    rfl
  rw [get, hrows, LastWrite.select_foldl, hlast]
  cases LastWrite.last RunRecord.runId records runId with
  | none => rfl
  | some record =>
    rw [Option.map_some, Option.some_or]
    simp only [RunRecord.fromRow_toDict]
    rfl

/-- After a series of saves, what `π` shows of each record is still found under its id if and only
if no two records with one id differ in it. -/
theorem saved_faithful_iff {β : Type} (π : RunRecord → β) (store : RunStore)
    (records : List RunRecord) :
    (∀ r ∈ records, ∃ record, (records.foldl save store).get r.runId = .ok (some record) ∧
        π record = π r) ↔
      ∀ r ∈ records, ∀ r' ∈ records, r.runId = r'.runId → π r = π r' := by
  rw [← LastWrite.last_faithful_iff RunRecord.runId π records]
  refine forall₂_congr fun r hr => exists_congr fun record => ?_
  obtain ⟨y, -, hy, -⟩ := LastWrite.exists_last_of_mem RunRecord.runId hr
  rw [get_foldl_save, hy]
  simp

end RunStore

end Chen
