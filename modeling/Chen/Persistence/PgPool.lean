import Chen.Library.Machine
import Chen.Persistence.PgStore

/-!
# The pool of the Postgres run store

`PostgresRunStore` opens a pool of connections with the first call that needs one, and runs the
schema script on it. The pool is kept as soon as it is created, whatever becomes of the script.
-/

namespace Chen

open Effect

/-- What the driver and the server do in a call. -/
structure Circumstances where
  importAsyncpg : Except Exn Unit := .ok ()
  createPool : Except Exn Unit := .ok ()
  /-- `acquire` for the schema script. -/
  acquireForSchema : Except Exn Unit := .ok ()
  executeSchema : Except Exn Unit := .ok ()
  releaseAfterSchema : Except Exn Unit := .ok ()
  /-- `acquire` for the statement of the call. -/
  acquire : Except Exn Unit := .ok ()
  closePool : Except Exn Unit := .ok ()

/-- What happens to a pool. Pools are numbered as they are created. -/
inductive PoolEvent where
  | created (pool : ℕ)
  /-- The schema script has completed. -/
  | prepared (pool : ℕ)
  /-- A statement has a connection of the pool. -/
  | used (pool : ℕ)
  | closed (pool : ℕ)
deriving DecidableEq

/-- `PostgresRunStore`, as far as it has to do with its pool. -/
structure PgClient where
  pool : Option ℕ := none
  created : ℕ := 0
  events : List PoolEvent := []

namespace PgClient

/-- A new pool is kept. -/
def keep (s : PgClient) : PgClient where
  pool := some s.created
  created := s.created + 1
  events := s.events ++ [.created s.created]

def note (s : PgClient) (e : PoolEvent) : PgClient := { s with events := s.events ++ [e] }

/-- What `_ensure_pool` tries. -/
def openPool (c : Circumstances) : EStateM Exn PgClient ℕ := do
  liftExcept c.importAsyncpg
  liftExcept c.createPool
  let pool ← modifyGet fun s => (s.created, s.keep)
  liftExcept c.acquireForSchema
  liftExcept c.executeSchema
  modify (·.note (.prepared pool))
  liftExcept c.releaseAfterSchema
  pure pool

/-- What `_ensure_pool` raises for an exception. -/
def reraised : Exn → Exn
  | .other "ImportError" _ | .other "ModuleNotFoundError" _ => .other "ImportError"
      "PostgresRunStore requires asyncpg. Install with: pip install asyncpg"
  | x => x

/-- `_ensure_pool`. -/
def ensurePool (c : Circumstances) : EStateM Exn PgClient ℕ := fun s =>
  match s.pool with
  | some pool => .ok pool s
  | none =>
    match openPool c s with
    | .ok pool s' => .ok pool s'
    | .error x s' => .error (reraised x) s'

/-- A statement on a connection of the pool, and what comes of it. -/
def withConnection {α : Type} (c : Circumstances) (answer : Except Exn α) :
    EStateM Exn PgClient α := do
  let pool ← ensurePool c
  liftExcept c.acquire
  modify (·.note (.used pool))
  liftExcept answer

/-- `save`. -/
def save (c : Circumstances) (answer : Except Exn Unit) : EStateM Exn PgClient Unit :=
  withConnection c answer

/-- `get`. -/
def get [Postgres] (c : Circumstances) (row : Except Exn (Option PgRow)) :
    EStateM Exn PgClient (Option RunRecord) :=
  (·.map PgRow.toRecord) <$> withConnection c row

/-- `list`. -/
def list [Postgres] (c : Circumstances) (rows : Except Exn (List PgRow)) :
    EStateM Exn PgClient (List RunRecord) :=
  (·.map PgRow.toRecord) <$> withConnection c rows

/-- `count`. -/
def count (c : Circumstances) (row : Except Exn (Option ℤ)) : EStateM Exn PgClient ℤ :=
  (·.getD 0) <$> withConnection c row

/-- `close`. -/
def close (c : Circumstances) : EStateM Exn PgClient Unit := fun s =>
  match s.pool with
  | none => .ok () s
  | some pool => (do
      liftExcept c.closePool
      modify fun s => { s.note (.closed pool) with pool := none } : EStateM Exn PgClient Unit) s

end PgClient

/-- A call of the store, with what comes of its statement. -/
inductive PgCall where
  | save (c : Circumstances) (answer : Except Exn Unit)
  | get (c : Circumstances) (row : Except Exn (Option PgRow))
  | list (c : Circumstances) (rows : Except Exn (List PgRow))
  | count (c : Circumstances) (row : Except Exn (Option ℤ))
  | close (c : Circumstances)

namespace PgCall

/-- The circumstances of a call that reads or writes runs. -/
def data : PgCall → Option Circumstances
  | save c _ | get c _ | list c _ | count c _ => some c
  | close _ => none

/-- The call gets a connection, if there is a pool. -/
def Connects (call : PgCall) : Prop := ∃ c, call.data = some c ∧ c.acquire = .ok ()

/-- The call closes the pool, if there is one. -/
def Closes (call : PgCall) : Prop := ∃ c, call = close c ∧ c.closePool = .ok ()

variable {call : PgCall} {c : Circumstances}

/-- A call that uses data connects if a connection can be had. -/
theorem connects_iff (h : call.data = some c) : call.Connects ↔ c.acquire = .ok () := by
  rw [Connects, h]
  simp

/-- A call that uses data does not close the pool. -/
theorem not_closes_of_data (h : call.data = some c) : ¬ call.Closes := by
  rintro ⟨c', rfl, -⟩
  cases h

/-- `close` does not connect. -/
theorem not_connects_close (c : Circumstances) : ¬ (close c).Connects := by
  rintro ⟨c', ⟨⟩, -⟩

/-- `close` closes unless closing the pool raises. -/
theorem closes_close_iff : (close c).Closes ↔ c.closePool = .ok () := by
  rw [Closes]
  simp

end PgCall

namespace PgClient

variable {s : PgClient} {call : PgCall} {c : Circumstances}

/-- What a call leaves, whether it returns or raises. -/
def step [Postgres] (s : PgClient) : PgCall → PgClient
  | .save c answer => final (save c answer s)
  | .get c row => final (get c row s)
  | .list c rows => final (list c rows s)
  | .count c row => final (count c row s)
  | .close c => final (close c s)

/-- The pool was created in this call, and the schema script did not complete. -/
def HalfOpens (s : PgClient) (call : PgCall) : Prop :=
  s.pool = none ∧ ∃ c, call.data = some c ∧ c.importAsyncpg = .ok () ∧ c.createPool = .ok () ∧
    ¬ (c.acquireForSchema = .ok () ∧ c.executeSchema = .ok ())

/-- The schema script has not completed on the pool that is kept. -/
def HalfOpen (s : PgClient) : Prop := ∃ pool, s.pool = some pool ∧ .prepared pool ∉ s.events

/-- A pool is used only behind its schema script. -/
def UsesPrepared (events : List PoolEvent) : Prop :=
  ∀ before pool, before ++ [.used pool] <+: events → .prepared pool ∈ before

/-! ## What a call does to the pools -/

/-- A call up to its statement. -/
def connect (c : Circumstances) : EStateM Exn PgClient Unit := do
  let pool ← ensurePool c
  liftExcept c.acquire
  modify (·.note (.used pool))

/-- What is done on a connection does not change the client. -/
theorem final_withConnection {α : Type} (c : Circumstances) (answer : Except Exn α)
    (s : PgClient) : final (withConnection c answer s) = final (connect c s) := by
  rw [withConnection, connect, bind_apply, bind_apply]
  cases ensurePool c s with
  | error x s₁ => rfl
  | ok pool s₁ =>
    dsimp only
    rw [bind_apply, bind_apply]
    cases c.acquire with
    | error x => rfl
    | ok _ => exact final_liftExcept answer _

/-- A call that uses data connects, whatever it does then. -/
theorem step_of_data [Postgres] (h : call.data = some c) : step s call = final (connect c s) := by
  cases call with
  | save c' answer =>
    cases h
    exact final_withConnection ..
  | get c' row =>
    cases h
    rw [step, get, map_eq_pure_bind, final_bind_pure, final_withConnection]
  | list c' rows =>
    cases h
    rw [step, list, map_eq_pure_bind, final_bind_pure, final_withConnection]
  | count c' row =>
    cases h
    rw [step, count, map_eq_pure_bind, final_bind_pure, final_withConnection]
  | close c' => cases h

/-- With a pool at hand, `connect` uses it or fails. -/
theorem connect_of_some {pool : ℕ} (h : s.pool = some pool) :
    c.acquire = .ok () ∧ final (connect c s) = s.note (.used pool) ∨
      c.acquire ≠ .ok () ∧ final (connect c s) = s := by
  rw [connect, bind_apply, ensurePool, h]
  dsimp only
  rw [bind_apply]
  cases c.acquire with
  | error x => exact .inr ⟨nofun, rfl⟩
  | ok _ => exact .inl ⟨rfl, rfl⟩

/-- A pool that is not created leaves nothing. -/
theorem connect_of_not_created (h : s.pool = none)
    (hcreate : ¬ (c.importAsyncpg = .ok () ∧ c.createPool = .ok ())) :
    final (connect c s) = s := by
  rw [connect, bind_apply, ensurePool, h, openPool]
  cases himport : c.importAsyncpg with
  | error x => rfl
  | ok _ =>
    cases hpool : c.createPool with
    | error x => rfl
    | ok _ => exact absurd ⟨himport, hpool⟩ hcreate

/-- A pool whose schema script does not complete is left. -/
theorem connect_of_halfOpens (h : s.pool = none) (himport : c.importAsyncpg = .ok ())
    (hpool : c.createPool = .ok ())
    (hschema : ¬ (c.acquireForSchema = .ok () ∧ c.executeSchema = .ok ())) :
    final (connect c s) = s.keep := by
  rw [connect, bind_apply, ensurePool, h, openPool, himport, hpool]
  cases hacquire : c.acquireForSchema with
  | error x => rfl
  | ok _ =>
    cases hexecute : c.executeSchema with
    | error x => rfl
    | ok _ => exact absurd ⟨hacquire, hexecute⟩ hschema

/-- Behind the schema script the pool may be used at once. -/
theorem connect_of_opens (h : s.pool = none) (himport : c.importAsyncpg = .ok ())
    (hpool : c.createPool = .ok ()) (hacquire : c.acquireForSchema = .ok ())
    (hexecute : c.executeSchema = .ok ()) :
    final (connect c s) = s.keep.note (.prepared s.created) ∨
      final (connect c s) = (s.keep.note (.prepared s.created)).note (.used s.created) := by
  rw [connect, bind_apply, ensurePool, h, openPool, himport, hpool, hacquire, hexecute]
  cases c.releaseAfterSchema with
  | error x => exact .inl rfl
  | ok _ =>
    cases c.acquire with
    | error x => exact .inl rfl
    | ok _ => exact .inr rfl

/-- One more event: a pool that it uses must have been prepared. -/
theorem usesPrepared_append_singleton {events : List PoolEvent} {e : PoolEvent} :
    UsesPrepared (events ++ [e]) ↔
      UsesPrepared events ∧ ∀ pool, e = .used pool → .prepared pool ∈ events := by
  constructor
  · intro h
    refine ⟨fun before pool hpre => h before pool (hpre.trans (List.prefix_append ..)), ?_⟩
    rintro pool rfl
    exact h events pool List.prefix_rfl
  · rintro ⟨h, he⟩ before pool hpre
    rcases List.prefix_concat_iff.mp hpre with heq | hpre
    · obtain ⟨rfl, hused⟩ := List.append_inj' heq rfl
      exact he pool (List.cons.inj hused).1.symm
    · exact h before pool hpre

/-- Pools have the numbers below that of the next one. -/
structure Numbered (s : PgClient) : Prop where
  pool_lt : ∀ pool, s.pool = some pool → pool < s.created
  prepared_lt : ∀ pool, .prepared pool ∈ s.events → pool < s.created

/-- A new client has numbered no pool. -/
theorem numbered_new : Numbered {} := ⟨by simp, by simp⟩

section Steps

variable [Postgres]

/-- What a call can do: nothing, use the pool or close it, or create one and run the script or
not. -/
theorem step_cases (s : PgClient) (call : PgCall) :
    (step s call = s ∧ ¬ HalfOpens s call ∧
      ∀ pool, s.pool = some pool → ¬ call.Connects ∧ ¬ call.Closes) ∨
    (∃ pool, s.pool = some pool ∧ call.Connects ∧ ¬ call.Closes ∧
      step s call = s.note (.used pool)) ∨
    (∃ pool, s.pool = some pool ∧ call.Closes ∧ ¬ call.Connects ∧
      step s call = { s.note (.closed pool) with pool := none }) ∨
    (HalfOpens s call ∧ step s call = s.keep) ∨
    s.pool = none ∧ ¬ HalfOpens s call ∧
      (step s call = s.keep.note (.prepared s.created) ∨
        step s call = (s.keep.note (.prepared s.created)).note (.used s.created)) := by
  cases hdata : call.data with
  | none =>
    have hopens : ¬ HalfOpens s call := by
      rintro ⟨-, c, hc, -⟩
      cases hdata.symm.trans hc
    cases call with
    | close c =>
      cases hpool : s.pool with
      | none => exact .inl ⟨by rw [step, close, hpool]; rfl, hopens, nofun⟩
      | some pool =>
        rw [step, close, hpool]
        cases hclose : c.closePool with
        | error x =>
          refine .inl ⟨rfl, hopens, fun _ _ => ⟨PgCall.not_connects_close c, ?_⟩⟩
          rw [PgCall.closes_close_iff, hclose]
          exact nofun
        | ok _ =>
          exact .inr (.inr (.inl ⟨pool, rfl, PgCall.closes_close_iff.mpr hclose,
            PgCall.not_connects_close c, rfl⟩))
    | save | get | list | count => cases hdata
  | some c =>
    -- a call that uses data: it connects, and creates the pool if there is none
    have hcloses := PgCall.not_closes_of_data hdata
    rw [step_of_data hdata]
    cases hpool : s.pool with
    | some pool =>
      have hopens : ¬ HalfOpens s call := by
        rintro ⟨hnone, -⟩
        cases hpool.symm.trans hnone
      rcases connect_of_some (c := c) hpool with ⟨hacquire, hstep⟩ | ⟨hacquire, hstep⟩
      · exact .inr (.inl ⟨pool, rfl, (PgCall.connects_iff hdata).mpr hacquire, hcloses, hstep⟩)
      · exact .inl ⟨hstep, hopens,
          fun _ _ => ⟨mt (PgCall.connects_iff hdata).mp hacquire, hcloses⟩⟩
    | none =>
      -- no pool yet: three points where its creation can stop
      by_cases hcreate : c.importAsyncpg = .ok () ∧ c.createPool = .ok ()
      · obtain ⟨himport, hcreated⟩ := hcreate
        by_cases hschema : c.acquireForSchema = .ok () ∧ c.executeSchema = .ok ()
        · refine .inr (.inr (.inr (.inr ⟨rfl, ?_,
            connect_of_opens hpool himport hcreated hschema.1 hschema.2⟩)))
          rintro ⟨-, c', hc', -, -, hfails⟩
          cases hdata.symm.trans hc'
          exact hfails hschema
        · exact .inr (.inr (.inr (.inl ⟨⟨hpool, c, hdata, himport, hcreated, hschema⟩,
            connect_of_halfOpens hpool himport hcreated hschema⟩)))
      · refine .inl ⟨connect_of_not_created hpool hcreate, ?_, nofun⟩
        rintro ⟨-, c', hc', himport, hcreated, -⟩
        cases hdata.symm.trans hc'
        exact hcreate ⟨himport, hcreated⟩

/-- Every call keeps the numbering. -/
theorem numbered_step (h : Numbered s) (call : PgCall) : Numbered (step s call) := by
  rcases step_cases s call with ⟨hstep, -⟩ | ⟨pool, hpool, -, -, hstep⟩ |
    ⟨pool, -, -, -, hstep⟩ | ⟨-, hstep⟩ | ⟨-, -, hstep | hstep⟩ <;> rw [hstep]
  · exact h
  · exact ⟨h.pool_lt, by simpa [note] using h.prepared_lt⟩
  · exact ⟨nofun, by simpa [note] using h.prepared_lt⟩
  all_goals
    have hlt := fun pool hpool => (h.prepared_lt pool hpool).trans (Nat.lt_succ_self _)
    constructor <;> simp_all [keep, note, or_imp]

/-- The kept pool is half open if it has just been, or was and is not closed. -/
theorem halfOpen_step (h : Numbered s) (call : PgCall) :
    HalfOpen (step s call) ↔ HalfOpens s call ∨ HalfOpen s ∧ ¬ call.Closes := by
  have hfresh : .prepared s.created ∉ s.events := fun hmem => (h.prepared_lt _ hmem).false
  rcases step_cases s call with ⟨hstep, hopens, hidle⟩ | ⟨pool, hpool, -, hcloses, hstep⟩ |
    ⟨pool, hpool, hcloses, -, hstep⟩ | ⟨hopens, hstep⟩ | ⟨hnone, hopens, hstep⟩
  · rw [hstep, or_iff_right hopens]
    exact ⟨fun ⟨pool, hpool, hraw⟩ => ⟨⟨pool, hpool, hraw⟩, (hidle pool hpool).2⟩, And.left⟩
  · have hopens : ¬ HalfOpens s call := fun ⟨hnone, _⟩ => nomatch hpool.symm.trans hnone
    rw [hstep, or_iff_right hopens, and_iff_left hcloses]
    simp [HalfOpen, note]
  · have hopens : ¬ HalfOpens s call := fun ⟨hnone, _⟩ => nomatch hpool.symm.trans hnone
    rw [hstep, or_iff_right hopens]
    exact iff_of_false (by simp [HalfOpen]) fun ⟨_, hkept⟩ => hkept hcloses
  · rw [hstep]
    exact iff_of_true ⟨_, rfl, by simpa [keep] using hfresh⟩ (.inl hopens)
  · have hhalf : ¬ HalfOpen s := fun ⟨pool, hpool, _⟩ => nomatch hnone.symm.trans hpool
    refine iff_of_false ?_ fun hor => hor.elim hopens fun ⟨hold, _⟩ => hhalf hold
    rcases hstep with hstep | hstep <;> rw [hstep] <;> simp [HalfOpen, keep, note]

/-- A call uses a pool too early if and only if it gets a connection of one that is half open. -/
theorem usesPrepared_step (s : PgClient) (call : PgCall) :
    UsesPrepared (step s call).events ↔
      UsesPrepared s.events ∧ ¬ (HalfOpen s ∧ call.Connects) := by
  rcases step_cases s call with ⟨hstep, -, hidle⟩ | ⟨pool, hpool, hconnects, -, hstep⟩ |
    ⟨pool, hpool, -, hconnects, hstep⟩ | ⟨⟨hnone, -⟩, hstep⟩ | ⟨hnone, -, hstep⟩
  · rw [hstep, and_iff_left]
    exact fun ⟨⟨pool, hpool, _⟩, hconnects⟩ => (hidle pool hpool).1 hconnects
  · rw [hstep, note, usesPrepared_append_singleton]
    simp [HalfOpen, hpool, hconnects]
  · rw [hstep, note, usesPrepared_append_singleton]
    simp [hconnects]
  · rw [hstep, keep, usesPrepared_append_singleton]
    simp [HalfOpen, hnone]
  · have hkeep :
        UsesPrepared (s.keep.note (.prepared s.created)).events ↔ UsesPrepared s.events := by
      rw [note, usesPrepared_append_singleton, keep, usesPrepared_append_singleton]
      simp
    have hhalf : ¬ HalfOpen s := fun ⟨pool, hpool, _⟩ => nomatch hnone.symm.trans hpool
    rw [and_iff_left fun hused => hhalf hused.1]
    rcases hstep with hstep | hstep
    · rw [hstep, hkeep]
    · rw [hstep, note, usesPrepared_append_singleton, hkeep]
      simp [keep, note]

/-! ## Runs -/

/-- The store after a series of calls. -/
def after (calls : List PgCall) : PgClient := Machine.run step {} calls

/-- A client is half open since a call that left it so and no call that closed it. -/
theorem halfOpen_after_iff (calls : List PgCall) :
    HalfOpen (after calls) ↔ ∃ before call between, calls = before ++ call :: between ∧
      HalfOpens (after before) call ∧ ∀ call' ∈ between, ¬ call'.Closes :=
  Machine.holds_iff_since (I := Numbered) (fun _ call h => numbered_step h call)
    (fun _ call h => halfOpen_step h call) numbered_new (by simp [HalfOpen]) calls

/-- A pool is used unprepared by a call that connects to a half open client. -/
theorem usesPrepared_after_iff (calls : List PgCall) :
    UsesPrepared (after calls).events ↔
      ∀ before call, before ++ [call] <+: calls → ¬ (HalfOpen (after before) ∧ call.Connects) := by
  refine Iff.trans ?_
    (Machine.eachStep_iff (P := fun s (call : PgCall) => ¬ (HalfOpen s ∧ call.Connects)))
  rw [after]
  induction calls using List.reverseRecOn with
  | nil => exact iff_of_true (by simp [UsesPrepared]) trivial
  | append_singleton calls call ih =>
    rw [Machine.run_append, Machine.run_cons, Machine.run_nil, usesPrepared_step, ih,
      Machine.eachStep_append, Machine.EachStep, Machine.EachStep, and_true]

/-- No run uses a pool on which the schema script has not completed if and only if none of its calls
gets a connection behind one in which the pool was created and the script was not completed, unless
the store was closed in between. -/
theorem usesPrepared_iff (calls : List PgCall) :
    UsesPrepared (after calls).events ↔
      ∀ before call between call' rest, calls = before ++ call :: between ++ call' :: rest →
        HalfOpens (after before) call → call'.Connects → ∃ closing ∈ between, closing.Closes := by
  rw [usesPrepared_after_iff]
  constructor
  · rintro h before call between call' rest rfl hopens hconnects
    by_contra hnone
    refine h (before ++ call :: between) call' ⟨rest, by simp⟩ ⟨?_, hconnects⟩
    rw [halfOpen_after_iff]
    exact ⟨before, call, between, rfl, hopens, fun closing hmem hcloses =>
      hnone ⟨closing, hmem, hcloses⟩⟩
  · rintro h earlier call' ⟨rest, rfl⟩ ⟨hhalf, hconnects⟩
    obtain ⟨before, call, between, rfl, hopens, hkept⟩ := (halfOpen_after_iff earlier).mp hhalf
    obtain ⟨closing, hmem, hcloses⟩ :=
      h before call between call' rest (by simp) hopens hconnects
    exact hkept closing hmem hcloses

end Steps

section Example

local instance poolPostgres : Postgres := .whole

/-- The schema script fails in the first call, and the second one takes the pool that is there. -/
theorem half_open_pool_used : ¬ ∀ calls : List PgCall, UsesPrepared (after calls).events := by
  intro h
  have hused := h [.save { executeSchema := .error (.other "UndefinedColumnError"
      "column \"tenant_id\" does not exist") } (.ok ()), .count {} (.ok (some 0))]
    [.created 0] 0 ⟨[], rfl⟩
  simp at hused

end Example

end PgClient

end Chen
