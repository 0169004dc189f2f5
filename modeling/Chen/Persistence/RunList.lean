import Chen.Persistence.PgStore
import Chen.Python.DateTime

/-!
# Listing runs

`list` orders the rows of a phase by their timestamps, which are texts. SQLite compares them byte
for byte, and in which order it gives rows with the same text is its own affair.
-/

namespace Chen

open Effect

/-- `ORDER BY timestamp DESC`, in a query with a limit and perhaps for a phase. -/
class Sqlite where
  newestFirst : ℤ → Option ℤ → List RunRow → List RunRow
  perm : ∀ limit phase rows, (newestFirst limit phase rows).Perm rows
  sorted : ∀ limit phase rows, (newestFirst limit phase rows).Pairwise fun row row' =>
    Str.utf8 row'.timestamp ≤ Str.utf8 row.timestamp

/-- What is of a phase, if a phase is asked for. -/
def ofPhase {α : Type} (phaseOf : α → ℤ) (phase : Option ℤ) (xs : List α) : List α :=
  match phase with
  | some p => xs.filter (phaseOf · = p)
  | none => xs

/-- Filtering by phase commutes with a map that keeps the phase. -/
theorem ofPhase_map {α β : Type} {f : α → β} {phaseOf : β → ℤ} (phase : Option ℤ) (xs : List α) :
    ofPhase phaseOf phase (xs.map f) = (ofPhase (phaseOf ∘ f) phase xs).map f := by
  cases phase with
  | none => rfl
  | some p => exact List.filter_map

/-- Filtering by phase keeps the order. -/
theorem ofPhase_sublist {α : Type} (phaseOf : α → ℤ) (phase : Option ℤ) (xs : List α) :
    (ofPhase phaseOf phase xs).Sublist xs := by
  cases phase with
  | none => exact List.Sublist.refl xs
  | some p => exact List.filter_sublist

namespace RunStore

/-- `list`. A negative limit is none. -/
def list [Sqlite] (store : RunStore) (limit : ℤ := 100) (phase : Option ℤ := none) :
    Except Exn (List RunRecord) :=
  if Int64 limit ∧ ∀ p ∈ phase, Int64 p then
    let rows := Sqlite.newestFirst limit phase (ofPhase RunRow.phase phase store.rows)
    (if limit < 0 then rows else rows.take limit.toNat).mapM RunRecord.fromRow
  else .error (.other "OverflowError" "Python int too large to convert to SQLite INTEGER")

/-- Runs with different ids are rows one behind the other. -/
theorem rows_foldlM {records : List RunRecord} {store store' : RunStore}
    (h : records.foldlM bindAndSave store = .ok store')
    (hids : (store.rows.map RunRow.runId ++ records.map RunRecord.runId).Nodup) :
    store'.rows = store.rows ++ records.map RunRecord.toDict := by
  induction records generalizing store with
  | nil =>
    cases h
    simp
  | cons record records ih =>
    obtain ⟨store₁, hsave, hrest⟩ := except_bind_eq_ok.mp h
    have hstore₁ : store₁ = store.save record := by
      rw [bindAndSave, RunRecord.bound] at hsave
      split at hsave
      · cases hsave
        rfl
      · cases hsave
    have hnew : ∀ row ∈ store.rows, row.runId ≠ record.runId := by
      intro row hrow heq
      rw [List.nodup_append] at hids
      exact hids.2.2 _ (List.mem_map_of_mem hrow) _ List.mem_cons_self heq
    -- a new id replaces no row, so that the row goes to the end
    have hrows : store₁.rows = store.rows ++ [record.toDict] := by
      rw [hstore₁, save, LastWrite.replace, List.filter_eq_self.mpr]
      exact fun row hrow => decide_eq_true (hnew row hrow)
    rw [ih hrest, hrows, List.append_assoc]
    · rfl
    · rw [hrows, List.map_append, List.append_assoc]
      exact hids

section List

variable [Sqlite] {records : List RunRecord} {store : RunStore} {time : RunRecord → DateTime}
  {limit : ℤ} {phase : Option ℤ}

omit [Sqlite] in
/-- A record has the timestamp of its row. -/
theorem timestamp_of_fromRow {row : RunRow} {r : RunRecord} (h : RunRecord.fromRow row = .ok r) :
    r.timestamp = row.timestamp := by
  obtain ⟨selectedExperts, -, hpure⟩ := except_bind_eq_ok.mp h
  cases hpure
  rfl

/-- The records of rows that are the newest first are in that order as well. -/
theorem mapM_newestFirst (limit : ℤ) (phase : Option ℤ) (matching : List RunRecord) :
    ∃ ordered, (Sqlite.newestFirst limit phase (matching.map RunRecord.toDict)).mapM
        RunRecord.fromRow = .ok ordered ∧
      ordered.Perm matching ∧
      ordered.Pairwise fun r r' => Str.utf8 r'.timestamp ≤ Str.utf8 r.timestamp := by
  have hmatching : (matching.map RunRecord.toDict).mapM RunRecord.fromRow = .ok matching := by
    rw [except_mapM_eq_ok, List.forall₂_map_left_iff, List.forall₂_same]
    exact fun r _ => RunRecord.fromRow_toDict r
  obtain ⟨ordered, hordered, hperm⟩ := except_mapM_perm (Sqlite.perm limit phase _) hmatching
  refine ⟨ordered, hordered, hperm, ?_⟩
  have htimes : ordered.map RunRecord.timestamp =
      (Sqlite.newestFirst limit phase (matching.map RunRecord.toDict)).map RunRow.timestamp :=
    map_eq_of_forall₂ ((except_mapM_eq_ok.mp hordered).imp fun _ _ => timestamp_of_fromRow)
  have hsorted := Sqlite.sorted limit phase (matching.map RunRecord.toDict)
  rw [← List.pairwise_map (f := RunRow.timestamp) (R := fun a b => Str.utf8 b ≤ Str.utf8 a),
    ← htimes, List.pairwise_map] at hsorted
  exact hsorted

/-- The runs that were saved are listed from the newest on, as many as the limit allows. -/
theorem list_chronological (hsaved : records.foldlM bindAndSave {} = .ok store)
    (hids : (records.map RunRecord.runId).Nodup)
    (htime : ∀ r ∈ records, r.timestamp = (time r).isoformat) (hlimit : 0 ≤ limit)
    (hlimit64 : Int64 limit) (hphase64 : ∀ p ∈ phase, Int64 p) :
    ∃ listed omitted, store.list limit phase = .ok listed ∧
      (listed ++ omitted).Perm (ofPhase RunRecord.phase phase records) ∧
      (listed.length : ℤ) = min limit (ofPhase RunRecord.phase phase records).length ∧
      listed.Pairwise (fun r r' => (time r').instant ≤ (time r).instant) ∧
      ∀ r ∈ listed, ∀ r' ∈ omitted, (time r').instant ≤ (time r).instant := by
  have hrows : ofPhase RunRow.phase phase store.rows =
      (ofPhase RunRecord.phase phase records).map RunRecord.toDict := by
    rw [rows_foldlM hsaved hids, List.nil_append, ofPhase_map]
    rfl
  obtain ⟨ordered, hordered, hperm, hsorted⟩ :=
    mapM_newestFirst limit phase (ofPhase RunRecord.phase phase records)
  -- the texts of timestamps are ordered like the instants
  have hchronological : ordered.Pairwise fun r r' => (time r').instant ≤ (time r).instant := by
    have hmem : ∀ r ∈ ordered, r ∈ records :=
      fun r hr => (ofPhase_sublist _ _ _).mem (hperm.mem_iff.mp hr)
    refine hsorted.imp_of_mem fun hr hr' hle => ?_
    rw [htime _ (hmem _ hr), htime _ (hmem _ hr')] at hle
    exact not_lt.mp fun hlt => List.not_lt.mpr hle ((DateTime.utf8_isoformat_lt_iff _ _).mpr hlt)
  rw [← List.take_append_drop limit.toNat ordered, List.pairwise_append] at hchronological
  refine ⟨ordered.take limit.toNat, ordered.drop limit.toNat, ?_, ?_, ?_, hchronological.1,
    hchronological.2.2⟩
  · rw [list, if_pos ⟨hlimit64, hphase64⟩]
    dsimp only
    rw [if_neg (not_lt.mpr hlimit), hrows, except_mapM_eq_ok]
    exact List.forall₂_take _ (except_mapM_eq_ok.mp hordered)
  · rwa [List.take_append_drop]
  · rw [List.length_take, hperm.length_eq]
    omega

end List

section Examples

/-- Rows with the same text in the order in which they were saved. -/
local instance stableSqlite : Sqlite where
  newestFirst _ _ rows := rows.insertionSort fun row row' =>
    Str.utf8 row'.timestamp ≤ Str.utf8 row.timestamp
  perm _ _ rows := List.perm_insertionSort _ rows
  sorted _ _ rows := List.pairwise_insertionSort _ rows

/-- A whole second, and the first microsecond after it. -/
def noon : DateTime where
  year := 2024
  month := 2
  day := 29
  hour := 12
  minute := 0
  second := 0
  microsecond := 0

def afterNoon : DateTime where
  year := 2024
  month := 2
  day := 29
  hour := 12
  minute := 0
  second := 0
  microsecond := 1

example : noon.isoformat = "2024-02-29T12:00:00+00:00" ∧
    afterNoon.isoformat = "2024-02-29T12:00:00.000001+00:00" := by
  decide

/-- A run of a mock backend at an instant. -/
def runAt (runId : String) (t : DateTime) : RunRecord where
  runId := runId
  configHash := "c"
  prompt := "p"
  output := "o"
  phase := 1
  backend := "mock"
  timestamp := t.isoformat

/-- Two runs of one day, the later of which is listed. -/
theorem list_chronological_noon : ∃ listed omitted,
    ((({} : RunStore).save (runAt "a" noon)).save (runAt "b" afterNoon)).list 1 (some 1) =
        .ok listed ∧
      (listed ++ omitted).Perm (ofPhase RunRecord.phase (some 1)
        [runAt "a" noon, runAt "b" afterNoon]) ∧
      (listed.length : ℤ) = min 1 (ofPhase RunRecord.phase (some 1)
        [runAt "a" noon, runAt "b" afterNoon]).length ∧
      listed.Pairwise (fun r r' => (if r'.runId = "a" then noon else afterNoon).instant ≤
        (if r.runId = "a" then noon else afterNoon).instant) ∧
      ∀ r ∈ listed, ∀ r' ∈ omitted, (if r'.runId = "a" then noon else afterNoon).instant ≤
        (if r.runId = "a" then noon else afterNoon).instant :=
  @list_chronological _ _ _ (fun r => if r.runId = "a" then noon else afterNoon) _ _ rfl (by decide)
    (by decide) (by decide) (by decide) (by decide)

/-- A limit that SQLite has no room for is an error. -/
theorem limit_too_large : ¬ ∀ (records : List RunRecord) (store : RunStore)
    (time : RunRecord → DateTime) (limit : ℤ) (phase : Option ℤ),
    records.foldlM bindAndSave {} = .ok store → (records.map RunRecord.runId).Nodup →
    (∀ r ∈ records, r.timestamp = (time r).isoformat) → 0 ≤ limit →
    ∃ listed, store.list limit phase = .ok listed ∧
      (listed.length : ℤ) = min limit (ofPhase RunRecord.phase phase records).length := by
  intro h
  obtain ⟨listed, hlisted, -⟩ :=
    h [] {} (fun _ => noon) (2 ^ 63) none rfl .nil nofun (by decide)
  rw [list, if_neg (by decide)] at hlisted
  cases hlisted

end Examples

end RunStore

end Chen
