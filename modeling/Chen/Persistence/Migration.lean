import Chen.Library.Effect
import Chen.Persistence.RunStore
import Chen.Python.Dict

/-!
# Opening an existing database

`RunStore.__init__` runs the schema and then adds the columns that an existing table lacks. The
schema has indexes on these columns, so it fails where they are still missing.
-/

namespace Chen

open Effect

/-- What a row of `runs` has in the columns of the first release. -/
structure FirstRow where
  runId : String
  configHash : String
  timestamp : String
  prompt : String
  output : String
  phase : ℤ
  backend : String
  router : Option String
  selectedExperts : String
  totalTokens : ℤ
  totalCostUsd : ℚ
  totalLatencyMs : ℚ
  epu : Option ℚ
  kvTransfers : Option ℤ

/-- The columns of the first release. -/
def firstColumns : List String :=
  ["run_id", "config_hash", "timestamp", "prompt", "output", "phase", "backend", "router",
    "selected_experts", "total_tokens", "total_cost_usd", "total_latency_ms", "epu",
    "kv_transfers"]

/-- A row as it is stored, with the texts of the columns that came later. -/
structure StoredRow where
  first : FirstRow
  added : Dict String (Option String)

namespace StoredRow

/-- The row as `SELECT *` returns it. A column that the table lacks is read as a null one, as
`from_row` does. -/
def toRunRow (row : StoredRow) : RunRow where
  runId := row.first.runId
  configHash := row.first.configHash
  timestamp := row.first.timestamp
  prompt := row.first.prompt
  output := row.first.output
  phase := row.first.phase
  backend := row.first.backend
  router := row.first.router
  selectedExperts := row.first.selectedExperts
  totalTokens := row.first.totalTokens
  totalCostUsd := row.first.totalCostUsd
  totalLatencyMs := row.first.totalLatencyMs
  epu := row.first.epu
  kvTransfers := row.first.kvTransfers
  traceId := (row.added.get? "trace_id").join
  tenantId := (row.added.get? "tenant_id").join

end StoredRow

/-- The table `runs` of a database. -/
structure RunsTable where
  /-- The columns that came after the first release. -/
  added : List String
  rows : List StoredRow
  fits : ∀ row ∈ rows, row.added.map Prod.fst = added
  primaryKey : (rows.map (·.first.runId)).Nodup

namespace RunsTable

/-- `PRAGMA table_info(runs)`. -/
def columns (table : RunsTable) : List String := firstColumns ++ table.added

/-- The table of the schema. -/
def new : RunsTable where
  added := ["trace_id", "tenant_id"]
  rows := []
  fits := List.forall_mem_nil _
  primaryKey := List.nodup_nil

/-- A column is added, and is null in every row. -/
def addColumn (table : RunsTable) (column : String) : RunsTable where
  added := table.added ++ [column]
  rows := table.rows.map fun row => { row with added := row.added ++ [(column, none)] }
  fits := by
    rw [List.forall_mem_map]
    intro row hrow
    rw [List.map_append, table.fits row hrow]
    rfl
  primaryKey := by
    rw [List.map_map]
    exact table.primaryKey

/-- A column is added if it is missing. -/
def ensureColumn (table : RunsTable) (column : String) : RunsTable :=
  if column ∈ table.columns then table else table.addColumn column

/-- What the migration makes of a table. -/
def migrated (table : RunsTable) : RunsTable :=
  (table.ensureColumn "trace_id").ensureColumn "tenant_id"

/-- The rows as the run store reads them. -/
def store (table : RunsTable) : RunStore := ⟨table.rows.map StoredRow.toRunRow⟩

end RunsTable

/-- A database: its table `runs`, if it has one, and the names of its indexes. -/
structure Database where
  runs : Option RunsTable := none
  indexes : List String := []

namespace Database

/-- What SQLite says. -/
def operationalError (message : String) : Exn := .other "OperationalError" message

/-- `CREATE TABLE IF NOT EXISTS runs (…)`. -/
def createRuns : EStateM Exn Database Unit := modify fun db =>
  match db.runs with
  | some _ => db
  | none => { db with runs := some .new }

/-- `CREATE INDEX IF NOT EXISTS name ON runs(column)`. Where an index has the name, nothing more is
checked. -/
def createIndex (name column : String) : EStateM Exn Database Unit := do
  let db ← get
  match db.runs with
  | none => throw (operationalError "no such table: main.runs")
  | some table =>
    if name ∈ db.indexes then pure ()
    else if column ∈ table.columns then set { db with indexes := db.indexes ++ [name] }
    else throw (operationalError ("no such column: " ++ column))

/-- The indexes of the schema, each with its column. -/
def runsIndexes : List (String × String) :=
  [("idx_runs_timestamp", "timestamp"), ("idx_runs_config_hash", "config_hash"),
    ("idx_runs_phase", "phase"), ("idx_runs_trace_id", "trace_id"),
    ("idx_runs_tenant", "tenant_id")]

/-- `executescript(_SCHEMA)`. Each statement is committed on its own. -/
def executeSchema : EStateM Exn Database Unit := do
  createRuns
  runsIndexes.forM fun p => createIndex p.1 p.2

/-- `ALTER TABLE runs ADD COLUMN column TEXT`. -/
def addColumn (column : String) : EStateM Exn Database Unit := do
  let db ← get
  match db.runs with
  | none => throw (operationalError "no such table: runs")
  | some table =>
    if column ∈ table.columns then throw (operationalError ("duplicate column name: " ++ column))
    else set { db with runs := some (table.addColumn column) }

/-- `_migrate`. -/
def migrate : EStateM Exn Database Unit := do
  let db ← get
  let cols := (db.runs.map RunsTable.columns).getD []
  if "trace_id" ∉ cols then addColumn "trace_id"
  if "tenant_id" ∉ cols then addColumn "tenant_id"

/-- `RunStore(path)`. -/
def init : EStateM Exn Database Unit := do
  executeSchema
  migrate

/-! ## The schema -/

section Schema

variable {db : Database} {table : RunsTable}

/-- A table that is there is not created. -/
theorem createRuns_of_some (h : db.runs = some table) : createRuns db = .ok () db := by
  have hcreate : createRuns db = .ok () (match db.runs with
      | some _ => db
      | none => { db with runs := some .new }) := rfl
  rw [hcreate, h]

/-- An index is created if its name is free, on a column that the table has. -/
theorem createIndex_apply (h : db.runs = some table) (name column : String) :
    createIndex name column db =
      if name ∈ db.indexes then .ok () db
      else if column ∈ table.columns then .ok () { db with indexes := db.indexes ++ [name] }
      else .error (operationalError ("no such column: " ++ column)) db := by
  unfold createIndex
  rw [get_bind_apply, h]
  dsimp only
  split
  · rfl
  · split <;> rfl

/-- An index is there afterwards, if it was there before or its column is there. -/
theorem createIndex_spec (h : db.runs = some table) {name column : String}
    (hcolumn : name ∈ db.indexes ∨ column ∈ table.columns) :
    ∃ db', createIndex name column db = .ok () db' ∧ db'.runs = some table ∧
      ∀ n, n ∈ db'.indexes ↔ n ∈ db.indexes ∨ n = name := by
  rw [createIndex_apply h]
  by_cases hname : name ∈ db.indexes
  · rw [if_pos hname]
    exact ⟨db, rfl, h, fun n => ⟨.inl, fun hn => hn.elim id fun heq => heq ▸ hname⟩⟩
  · rw [if_neg hname, if_pos (hcolumn.resolve_left hname)]
    exact ⟨_, rfl, h, by simp⟩

/-- If each index has its name taken or its column there, all of them are there afterwards. -/
theorem createIndexes_spec {ps : List (String × String)} (h : db.runs = some table)
    (hcolumns : ∀ p ∈ ps, p.1 ∈ db.indexes ∨ p.2 ∈ table.columns) :
    ∃ db', (ps.forM fun p => createIndex p.1 p.2) db = .ok () db' ∧ db'.runs = some table ∧
      ∀ n, n ∈ db'.indexes ↔ n ∈ db.indexes ∨ n ∈ ps.map Prod.fst := by
  induction ps generalizing db with
  | nil => exact ⟨db, rfl, h, by simp⟩
  | cons p ps ih =>
    obtain ⟨hp, hps⟩ := List.forall_mem_cons.mp hcolumns
    obtain ⟨db₁, hcreate, hruns, hindexes⟩ := createIndex_spec h hp
    obtain ⟨db', hrest, hruns', hindexes'⟩ :=
      ih hruns fun q hq => (hps q hq).imp_left fun hmem => (hindexes q.1).mpr (.inl hmem)
    refine ⟨db', (bind_ok hcreate).trans hrest, hruns', fun n => ?_⟩
    rw [hindexes', hindexes, List.map_cons, List.mem_cons, or_assoc]

/-- One index without its column, and the schema fails. -/
theorem createIndexes_error {ps : List (String × String)} (h : db.runs = some table)
    (hnodup : (ps.map Prod.fst).Nodup) {p : String × String} (hp : p ∈ ps)
    (hname : p.1 ∉ db.indexes) (hcolumn : p.2 ∉ table.columns) :
    ∃ x db', (ps.forM fun p => createIndex p.1 p.2) db = .error x db' ∧ db'.runs = some table := by
  induction ps generalizing db with
  | nil => cases hp
  | cons q ps ih =>
    obtain ⟨hq, hps⟩ := List.nodup_cons.mp hnodup
    by_cases hcreated : q.1 ∈ db.indexes ∨ q.2 ∈ table.columns
    · obtain ⟨db₁, hcreate, hruns, hindexes⟩ := createIndex_spec h hcreated
      -- `q` is another index than `p`
      have hmem : p ∈ ps := by
        rcases List.mem_cons.mp hp with rfl | hmem
        · exact absurd hcreated (not_or.mpr ⟨hname, hcolumn⟩)
        · exact hmem
      have hne : p.1 ≠ q.1 := fun heq => hq (heq ▸ List.mem_map_of_mem hmem)
      obtain ⟨x, db', hrest, hruns'⟩ := ih hruns hps hmem fun hp' =>
        ((hindexes p.1).mp hp').elim hname hne
      exact ⟨x, db', (bind_ok hcreate).trans hrest, hruns'⟩
    · obtain ⟨hqname, hqcolumn⟩ := not_or.mp hcreated
      have hcreate := createIndex_apply h q.1 q.2
      rw [if_neg hqname, if_neg hqcolumn] at hcreate
      exact ⟨_, db, bind_error hcreate, h⟩

/-- If all names are taken, no index is created. -/
theorem createIndexes_of_mem {ps : List (String × String)} (h : db.runs = some table)
    (hnames : ∀ p ∈ ps, p.1 ∈ db.indexes) :
    (ps.forM fun p => createIndex p.1 p.2) db = .ok () db := by
  induction ps with
  | nil => rfl
  | cons p ps ih =>
    obtain ⟨hp, hps⟩ := List.forall_mem_cons.mp hnames
    have hcreate := createIndex_apply h p.1 p.2
    rw [if_pos hp] at hcreate
    exact (bind_ok hcreate).trans (ih hps)

end Schema

/-! ## The migration -/

section Migration

variable {db : Database} {table : RunsTable}

/-- A column that is missing is added. -/
theorem addColumn_apply (h : db.runs = some table) {column : String}
    (hcolumn : column ∉ table.columns) :
    addColumn column db = .ok () { db with runs := some (table.ensureColumn column) } := by
  unfold addColumn RunsTable.ensureColumn
  rw [get_bind_apply, h]
  dsimp only
  rw [if_neg hcolumn, if_neg hcolumn]
  rfl

end Migration

end Database

namespace RunsTable

variable {table : RunsTable} {column : String}

/-- The columns after one was added. -/
theorem mem_columns_addColumn {c : String} :
    c ∈ (table.addColumn column).columns ↔ c ∈ table.columns ∨ c = column := by
  simp [columns, addColumn, or_assoc]

/-- The columns after one was added where it was missing. -/
theorem mem_columns_ensureColumn {c : String} :
    c ∈ (table.ensureColumn column).columns ↔ c ∈ table.columns ∨ c = column := by
  unfold ensureColumn
  split
  · next hcolumn => exact ⟨.inl, fun hc => hc.elim id fun heq => heq ▸ hcolumn⟩
  · exact mem_columns_addColumn

/-- A column that is there is not added. -/
theorem ensureColumn_of_mem (h : column ∈ table.columns) : table.ensureColumn column = table := by
  unfold ensureColumn
  rw [if_pos h]

end RunsTable

namespace Database

variable {db : Database} {table : RunsTable}

/-- The second column is looked for among the columns that were there at first. -/
theorem ensureColumn_apply (h : db.runs = some table) {column : String} {cols : List String}
    (hcols : column ∈ cols ↔ column ∈ table.columns) :
    (if column ∉ cols then addColumn column else pure ()) db =
      .ok () { db with runs := some (table.ensureColumn column) } := by
  by_cases hcolumn : column ∈ table.columns
  · rw [if_neg (not_not.mpr (hcols.mpr hcolumn)), RunsTable.ensureColumn_of_mem hcolumn, ← h]
    rfl
  · rw [if_pos (mt hcols.mp hcolumn), addColumn_apply h hcolumn]

/-- `_migrate` adds the columns that are missing, and touches nothing else. -/
theorem migrate_apply (h : db.runs = some table) :
    migrate db = .ok () { db with runs := some table.migrated } := by
  have htenant : "tenant_id" ∈ table.columns ↔
      "tenant_id" ∈ (table.ensureColumn "trace_id").columns := by
    rw [RunsTable.mem_columns_ensureColumn]
    simp
  have htrace := ensureColumn_apply h (Iff.rfl (a := "trace_id" ∈ table.columns))
  unfold migrate RunsTable.migrated
  rw [get_bind_apply, h]
  dsimp only [Option.map_some, Option.getD_some]
  split
  · next hmissing =>
    rw [if_pos hmissing] at htrace
    rw [bind_ok htrace, ensureColumn_apply rfl htenant]
  · next hthere =>
    rw [RunsTable.ensureColumn_of_mem (not_not.mp hthere)] at htenant ⊢
    rw [ensureColumn_apply h htenant]

/-- The names of the indexes are all different. -/
theorem nodup_runsIndexes : (runsIndexes.map Prod.fst).Nodup := by decide

/-- Every column that an index is on is there, or there is an index of this name already. -/
def Openable (db : Database) (table : RunsTable) : Prop :=
  ∀ p ∈ [("idx_runs_trace_id", "trace_id"), ("idx_runs_tenant", "tenant_id")],
    p.1 ∈ db.indexes ∨ p.2 ∈ table.columns

/-- The schema runs if each of its indexes has its name taken or its column there. -/
theorem openable_iff :
    Openable db table ↔ ∀ p ∈ runsIndexes, p.1 ∈ db.indexes ∨ p.2 ∈ table.columns := by
  simp [Openable, runsIndexes, RunsTable.columns, firstColumns]

/-- A database on which the schema runs is opened, migrated. -/
theorem init_of_openable (h : db.runs = some table) (hopen : Openable db table) :
    ∃ db', init db = .ok () db' ∧ db'.runs = some table.migrated ∧
      ∀ p ∈ runsIndexes, p.1 ∈ db'.indexes := by
  obtain ⟨db₁, hcreate, hruns, hindexes⟩ := createIndexes_spec h (openable_iff.mp hopen)
  have hschema : executeSchema db = .ok () db₁ := (bind_ok (createRuns_of_some h)).trans hcreate
  refine ⟨_, (bind_ok hschema).trans (migrate_apply hruns), rfl, fun p hp => ?_⟩
  exact (hindexes p.1).mpr (.inr (List.mem_map_of_mem hp))

/-- Otherwise the schema fails, and the table is as it was. -/
theorem init_of_not_openable (h : db.runs = some table) (hopen : ¬Openable db table) :
    ∃ x db', init db = .error x db' ∧ db'.runs = some table := by
  rw [openable_iff] at hopen
  push Not at hopen
  obtain ⟨p, hp, hname, hcolumn⟩ := hopen
  obtain ⟨x, db', hcreate, hruns⟩ := createIndexes_error h nodup_runsIndexes hp hname hcolumn
  have hschema : executeSchema db = .error x db' := (bind_ok (createRuns_of_some h)).trans hcreate
  exact ⟨x, db', bind_error hschema, hruns⟩

/-- With all columns and indexes there, nothing happens. -/
theorem init_of_current (h : db.runs = some table) (hindexes : ∀ p ∈ runsIndexes, p.1 ∈ db.indexes)
    (htrace : "trace_id" ∈ table.columns) (htenant : "tenant_id" ∈ table.columns) :
    init db = .ok () db := by
  have hschema : executeSchema db = .ok () db :=
    (bind_ok (createRuns_of_some h)).trans (createIndexes_of_mem h hindexes)
  refine (bind_ok hschema).trans ?_
  rw [migrate_apply h, RunsTable.migrated, RunsTable.ensureColumn_of_mem htrace,
    RunsTable.ensureColumn_of_mem htenant, ← h]

end Database

/-! ## The rows -/

/-- Nothing that a row had is changed. -/
structure StoredRow.Keeps (row row' : StoredRow) : Prop where
  first : row'.first = row.first
  added : ∀ column value, row.added.get? column = some value → row'.added.get? column = some value

/-- What is kept twice is kept. -/
theorem StoredRow.Keeps.trans {row row₁ row₂ : StoredRow} (h₁ : row.Keeps row₁)
    (h₂ : row₁.Keeps row₂) : row.Keeps row₂ :=
  ⟨h₂.first.trans h₁.first, fun c v hv => h₂.added c v (h₁.added c v hv)⟩

namespace RunsTable

variable {table : RunsTable}

/-- A row has no value in a column that its table has not. -/
theorem get?_of_not_mem_columns {row : StoredRow} (hrow : row ∈ table.rows) {column : String}
    (hcolumn : column ∉ table.columns) : row.added.get? column = none := by
  rw [Dict.get?_eq_none_iff]
  rintro p hp rfl
  apply hcolumn
  rw [columns, List.mem_append, ← table.fits row hrow]
  exact .inr (List.mem_map_of_mem hp)

/-- The rows of a table with a new column. -/
theorem rows_addColumn {column : String} (hcolumn : column ∉ table.columns) :
    (table.addColumn column).rows =
      table.rows.map fun row => { row with added := row.added.set column none } := by
  apply List.map_congr_left
  intro row hrow
  rw [Dict.set_of_get?_eq_none (get?_of_not_mem_columns hrow hcolumn)]

/-- Adding a column changes no value. -/
theorem keeps_ensureColumn (table : RunsTable) (column : String) :
    List.Forall₂ StoredRow.Keeps table.rows (table.ensureColumn column).rows := by
  unfold ensureColumn
  split
  · exact List.forall₂_same.mpr fun row _ => ⟨rfl, fun _ _ => id⟩
  · next hcolumn =>
    rw [rows_addColumn hcolumn, List.forall₂_map_right_iff, List.forall₂_same]
    intro row hrow
    refine ⟨rfl, fun c v hv => ?_⟩
    have hne : c ≠ column := by
      rintro rfl
      rw [get?_of_not_mem_columns hrow hcolumn] at hv
      cases hv
    rwa [Dict.get?_set_of_ne _ hne]

/-- Every row keeps its values in the migration. -/
theorem keeps_migrated (table : RunsTable) :
    List.Forall₂ StoredRow.Keeps table.rows table.migrated.rows := by
  have htrans {rows rows₁ rows₂ : List StoredRow} (h₁ : List.Forall₂ StoredRow.Keeps rows rows₁)
      (h₂ : List.Forall₂ StoredRow.Keeps rows₁ rows₂) :
      List.Forall₂ StoredRow.Keeps rows rows₂ := by
    induction h₁ generalizing rows₂ with
    | nil => exact h₂
    | cons h _ ih =>
      obtain _ | ⟨h', hrest⟩ := h₂
      exact .cons (h.trans h') (ih hrest)
  exact htrans (keeps_ensureColumn table "trace_id") (keeps_ensureColumn _ "tenant_id")

/-- A column that is added reads as it did when it was missing. -/
theorem store_ensureColumn (table : RunsTable) (column : String) :
    (table.ensureColumn column).store = table.store := by
  unfold ensureColumn
  split
  · rfl
  · next hcolumn =>
    unfold store
    rw [rows_addColumn hcolumn, List.map_map]
    congr 1
    apply List.map_congr_left
    intro row hrow
    have hjoin (c : String) :
        (Dict.get? (row.added.set column none) c).join = (row.added.get? c).join := by
      by_cases hc : c = column
      · rw [hc, Dict.get?_set_self, get?_of_not_mem_columns hrow hcolumn]
        rfl
      · rw [Dict.get?_set_of_ne _ hc]
    simp only [Function.comp_apply, StoredRow.toRunRow, hjoin]

/-- The migrated table is the same store. -/
theorem store_migrated (table : RunsTable) : table.migrated.store = table.store := by
  rw [migrated, store_ensureColumn, store_ensureColumn]

end RunsTable

/-! ## Opening an existing database -/

namespace Database

/-- Of a row, `get` returns what it says, where the columns that were missing are empty. -/
def Reads (table : RunsTable) (store : RunStore) (row : StoredRow) : Prop :=
  ∃ record, store.get row.first.runId = .ok (some record) ∧
    RunRecord.fromRow row.toRunRow = .ok record ∧
    ("trace_id" ∉ table.columns → record.traceId = "") ∧
    ("tenant_id" ∉ table.columns → record.tenantId = "")

/-- The database is opened, its rows are kept and can be read, and opening it again changes
nothing. -/
def Migrates (db : Database) (table : RunsTable) : Prop :=
  ∃ db' table', init db = .ok () db' ∧ db'.runs = some table' ∧
    List.Forall₂ StoredRow.Keeps table.rows table'.rows ∧
    (∀ row ∈ table.rows, Reads table table'.store row) ∧ init db' = .ok () db'

variable {db : Database} {table : RunsTable}

/-- The store returns the record of a row. -/
theorem get_store {row : StoredRow} (hrow : row ∈ table.rows) :
    table.store.get row.first.runId = some <$> RunRecord.fromRow row.toRunRow := by
  have hkeys : (table.store.rows.map RunRow.runId).Nodup := by
    rw [RunsTable.store, List.map_map]
    exact table.primaryKey
  have hmem : row.toRunRow ∈ table.store.rows := List.mem_map_of_mem hrow
  have hselect : LastWrite.select RunRow.runId table.store.rows row.first.runId =
      some row.toRunRow := LastWrite.select_of_mem RunRow.runId hkeys hmem
  rw [RunStore.get, hselect]

/-- A row can be read if its experts can. -/
theorem reads_iff {row : StoredRow} (hrow : row ∈ table.rows) :
    Reads table table.store row ↔
      ∃ names, Json.loadsStrings row.first.selectedExperts = .ok names := by
  unfold Reads
  rw [get_store hrow, RunRecord.fromRow]
  have hempty (column : String) (hcolumn : column ∉ table.columns) :
      (row.added.get? column).join.getD "" = "" := by
    rw [RunsTable.get?_of_not_mem_columns hrow hcolumn]
    rfl
  constructor
  · rintro ⟨record, -, hread, -⟩
    obtain ⟨names, hnames, -⟩ := except_bind_eq_ok.mp hread
    exact ⟨names, hnames⟩
  · rintro ⟨names, hnames⟩
    have hexperts : Json.loadsStrings row.toRunRow.selectedExperts = .ok names := hnames
    rw [hexperts]
    exact ⟨_, rfl, rfl, hempty "trace_id", hempty "tenant_id"⟩

/-- A database with the table `runs` is opened as it should if and only if the two indexes on the
newer columns can be created or have been, and the experts of every row are a list of strings. -/
theorem migrates_iff (h : db.runs = some table) :
    Migrates db table ↔
      (∀ p ∈ [("idx_runs_trace_id", "trace_id"), ("idx_runs_tenant", "tenant_id")],
        p.1 ∈ db.indexes ∨ p.2 ∈ table.columns) ∧
      ∀ row ∈ table.rows, ∃ names, Json.loadsStrings row.first.selectedExperts = .ok names := by
  rw [← Openable]
  constructor
  · rintro ⟨db', table', hinit, hruns, -, hreads, -⟩
    -- an opening that fails would contradict `hinit`
    have hopen : Openable db table := by
      by_contra hopen
      obtain ⟨x, db₁, hfails, -⟩ := init_of_not_openable h hopen
      rw [hfails] at hinit
      cases hinit
    obtain ⟨db₁, hinit₁, hruns₁, -⟩ := init_of_openable h hopen
    rw [hinit] at hinit₁
    cases hinit₁
    rw [hruns] at hruns₁
    cases hruns₁
    refine ⟨hopen, fun row hrow => ?_⟩
    have hread := hreads row hrow
    rw [RunsTable.store_migrated] at hread
    exact (reads_iff hrow).mp hread
  · rintro ⟨hopen, hexperts⟩
    obtain ⟨db', hinit, hruns, hindexes⟩ := init_of_openable h hopen
    have hcolumns : ∀ c ∈ ["trace_id", "tenant_id"], c ∈ table.migrated.columns := by
      simp [RunsTable.migrated, RunsTable.mem_columns_ensureColumn]
    refine ⟨db', table.migrated, hinit, hruns, RunsTable.keeps_migrated table, ?_, ?_⟩
    · intro row hrow
      rw [RunsTable.store_migrated]
      exact (reads_iff hrow).mpr (hexperts row hrow)
    · exact init_of_current hruns hindexes (hcolumns _ (by simp)) (hcolumns _ (by simp))

/-- A table of the first release, with one run. -/
def firstTable : RunsTable where
  added := []
  rows :=
    [{ first :=
        { runId := "r", configHash := "c", timestamp := "2025-07-15T00:00:00+00:00", prompt := "p",
          output := "o", phase := 1, backend := "mock", router := none,
          selectedExperts := "[\"e\"]", totalTokens := 1, totalCostUsd := 0, totalLatencyMs := 0,
          epu := none, kvTransfers := none },
       added := [] }]
  fits := by decide
  primaryKey := by decide

/-- It is migrated where the names of the indexes are taken already. -/
theorem migrates_iff_names_taken :
    Migrates { runs := some firstTable, indexes := ["idx_runs_trace_id", "idx_runs_tenant"] }
      firstTable := by
  refine (migrates_iff rfl).mpr ⟨by decide, fun row hrow => ?_⟩
  cases List.mem_singleton.mp hrow
  exact ⟨["e"], by decide⟩

/-- As the first release left it, it is not opened. -/
theorem earlier_release_not_opened :
    ¬∀ db table, db.runs = some table →
      (∀ row ∈ table.rows, ∃ names, Json.loadsStrings row.first.selectedExperts = .ok names) →
      Migrates db table := by
  intro h
  let db : Database :=
    { runs := some firstTable
      indexes := ["idx_runs_timestamp", "idx_runs_config_hash", "idx_runs_phase"] }
  have hexperts : ∀ row ∈ firstTable.rows,
      ∃ names, Json.loadsStrings row.first.selectedExperts = .ok names := by
    intro row hrow
    cases List.mem_singleton.mp hrow
    exact ⟨["e"], by decide⟩
  obtain ⟨db', table', hinit, -⟩ := h db firstTable rfl hexperts
  have hclosed : ¬Openable db firstTable := by
    unfold Openable
    decide
  obtain ⟨x, db₁, hfails, -⟩ := init_of_not_openable rfl hclosed
  rw [hfails] at hinit
  cases hinit

end Database

end Chen
