import Chen.Persistence.RunList
import Chen.Server.Streaming

/-!
# The endpoints that show runs

`GET /v1/runs` lists summaries, and `GET /v1/runs/{run_id}` shows the details of one run. After
whatever was served, the two agree.
-/

namespace Chen

open Effect

/-- Entry of `GET /v1/runs`. -/
structure RunSummary where
  runId : String
  timestamp : String
  phase : ℤ
  backend : String
  promptPreview : String
  totalTokens : ℤ
  totalCostUsd : ℚ
  epu : ℚ
deriving DecidableEq

/-- Response body of `GET /v1/runs/{run_id}`. -/
structure RunDetail extends RunSummary where
  configHash : String
  router : String
  selectedExperts : List String
  output : String
  totalLatencyMs : ℚ
  kvTransfers : ℤ
deriving DecidableEq

/-- How an endpoint fails: with an `HTTPException` of its own, or with what it did not catch. -/
inductive EndpointError where
  | http (statusCode : ℕ) (detail : String)
  | raised (x : Exn)
deriving DecidableEq

def RunRecord.summary (r : RunRecord) : RunSummary where
  runId := r.runId
  timestamp := r.timestamp
  phase := r.phase
  backend := r.backend
  promptPreview := Str.prefixTo r.prompt 80
  totalTokens := r.totalTokens
  totalCostUsd := r.totalCostUsd
  epu := r.epu

def RunRecord.detail (r : RunRecord) : RunDetail where
  runId := r.runId
  timestamp := r.timestamp
  phase := r.phase
  backend := r.backend
  promptPreview := Str.prefixTo r.prompt 80
  totalTokens := r.totalTokens
  totalCostUsd := r.totalCostUsd
  epu := r.epu
  configHash := r.configHash
  router := r.router
  selectedExperts := r.selectedExperts
  output := r.output
  totalLatencyMs := r.totalLatencyMs
  kvTransfers := r.kvTransfers

/-- `list_runs`. -/
def listRuns [Sqlite] (store : RunStore) (limit : ℤ := 50) (phase : Option ℤ := none) :
    Except EndpointError (List RunSummary) :=
  match store.list limit phase with
  | .ok records => .ok (records.map RunRecord.summary)
  | .error x => .error (.raised x)

/-- `get_run`. -/
def getRun (store : RunStore) (runId : String) : Except EndpointError RunDetail :=
  match store.get runId with
  | .ok (some r) => .ok r.detail
  | .ok none => .error (.http 404 ("Run '" ++ runId ++ "' not found"))
  | .error x => .error (.raised x)

namespace RunStore

/-! ## What a series of saves leaves -/

/-- The records that are left: of each id the last. -/
def kept (records : List RunRecord) : List RunRecord :=
  records.foldl (LastWrite.replace RunRecord.runId) []

/-- The rows of a store are the records that are kept. -/
theorem rows_foldl_save (records : List RunRecord) :
    (records.foldl save {}).rows = (kept records).map RunRecord.toDict := by
  induction records using List.reverseRecOn with
  | nil => rfl
  | append_singleton records r ih =>
    rw [kept, List.foldl_append, List.foldl_append, List.foldl_cons, List.foldl_nil,
      List.foldl_cons, List.foldl_nil, save, ih, LastWrite.replace, LastWrite.replace,
      List.map_append, List.filter_map]
    rfl

/-- One record is kept for each id. -/
theorem nodup_kept (records : List RunRecord) : ((kept records).map RunRecord.runId).Nodup := by
  induction records using List.reverseRecOn with
  | nil => exact List.nodup_nil
  | append_singleton records r ih =>
    rw [kept, List.foldl_append, List.foldl_cons, List.foldl_nil, LastWrite.replace,
      List.map_append, List.map_singleton]
    refine List.Nodup.append ?_ (List.nodup_singleton _) ?_
    · exact ih.sublist (List.filter_sublist.map _)
    · rw [List.disjoint_singleton, List.mem_map]
      rintro ⟨r', hr', heq⟩
      simp [heq] at hr'

/-- It is the last of its id. -/
theorem select_kept (records : List RunRecord) (runId : String) :
    LastWrite.select RunRecord.runId (kept records) runId =
      LastWrite.last RunRecord.runId records runId := by
  rw [kept, LastWrite.select_foldl]
  exact Option.or_none

/-- A record is found if and only if it is kept. -/
theorem get_eq_some_iff (records : List RunRecord) (runId : String) (r : RunRecord) :
    (records.foldl save {}).get runId = .ok (some r) ↔ r ∈ kept records ∧ r.runId = runId := by
  rw [get_foldl_save, ← select_kept]
  constructor
  · intro h
    cases hselect : LastWrite.select RunRecord.runId (kept records) runId with
    | none =>
      rw [hselect] at h
      cases h
    | some r' =>
      rw [hselect] at h
      cases h
      exact ⟨List.mem_of_find?_eq_some hselect, by simpa using List.find?_some hselect⟩
  · rintro ⟨hmem, rfl⟩
    rw [LastWrite.select_of_mem RunRecord.runId (nodup_kept records) hmem]

/-- What is listed is what is kept of the phase, from the newest on and up to the limit. -/
theorem list_eq_ok [Sqlite] {records listed : List RunRecord} {limit : ℤ} {phase : Option ℤ}
    (h : (records.foldl save {}).list limit phase = .ok listed) : ∃ ordered,
      ordered.Perm (ofPhase RunRecord.phase phase (kept records)) ∧
      ordered.Pairwise (fun r r' => Str.utf8 r'.timestamp ≤ Str.utf8 r.timestamp) ∧
      listed = if limit < 0 then ordered else ordered.take limit.toNat := by
  obtain ⟨ordered, hordered, hperm, hsorted⟩ :=
    mapM_newestFirst limit phase (ofPhase RunRecord.phase phase (kept records))
  refine ⟨ordered, hperm, hsorted, ?_⟩
  rw [list] at h
  split at h
  case isTrue =>
    have hrows : ofPhase RunRow.phase phase (records.foldl save {}).rows =
        (ofPhase RunRecord.phase phase (kept records)).map RunRecord.toDict := by
      rw [rows_foldl_save, ofPhase_map]
      rfl
    dsimp only at h
    rw [hrows] at h
    split at h
    case isTrue hneg =>
      rw [hordered] at h
      rw [if_pos hneg]
      exact (Except.ok.inj h).symm
    case isFalse hneg =>
      rw [except_mapM_eq_ok.mpr (List.forall₂_take _ (except_mapM_eq_ok.mp hordered))] at h
      rw [if_neg hneg]
      exact (Except.ok.inj h).symm
  case isFalse => cases h

end RunStore

/-- The records of a phase, or all of them. -/
theorem mem_ofPhase {α : Type} {phaseOf : α → ℤ} {phase : Option ℤ} {xs : List α} {x : α} :
    x ∈ ofPhase phaseOf phase xs ↔ x ∈ xs ∧ ∀ p ∈ phase, phaseOf x = p := by
  cases phase with
  | none => simp [ofPhase]
  | some p => simp [ofPhase]

/-- A run is shown if the store has it. -/
theorem getRun_eq_ok {store : RunStore} {runId : String} {detail : RunDetail} :
    getRun store runId = .ok detail ↔ ∃ r, store.get runId = .ok (some r) ∧ detail = r.detail := by
  rw [getRun]
  split
  case h_1 r hget => simp [hget, eq_comm]
  case h_2 hget => simp [hget]
  case h_3 x hget => simp [hget]

/-- The two endpoints agree on a store: no run is listed twice, the newest come first, every entry
is what the details of its run begin with, and fewer entries than the limit are all there are. -/
structure RunsAgree (store : RunStore) (limit : ℤ) (phase : Option ℤ)
    (summaries : List RunSummary) : Prop where
  distinct : (summaries.map RunSummary.runId).Nodup
  newestFirst : summaries.Pairwise fun s s' => Str.utf8 s'.timestamp ≤ Str.utf8 s.timestamp
  shown : ∀ s ∈ summaries, (∀ p ∈ phase, s.phase = p) ∧
    ∃ detail, getRun store s.runId = .ok detail ∧ detail.toRunSummary = s
  complete : limit < 0 ∨ (summaries.length : ℤ) < limit → ∀ runId detail,
    getRun store runId = .ok detail → (∀ p ∈ phase, detail.phase = p) →
      detail.toRunSummary ∈ summaries

/-- Every run that is listed is shown as it is listed. -/
theorem runsAgree [Sqlite] {records : List RunRecord} {limit : ℤ} {phase : Option ℤ}
    {summaries : List RunSummary}
    (h : listRuns (records.foldl RunStore.save {}) limit phase = .ok summaries) :
    RunsAgree (records.foldl RunStore.save {}) limit phase summaries := by
  rw [listRuns] at h
  split at h
  swap
  · cases h
  next listed hlisted =>
  cases h
  obtain ⟨ordered, hperm, hsorted, rfl⟩ := RunStore.list_eq_ok hlisted
  have hsub : (if limit < 0 then ordered else ordered.take limit.toNat).Sublist ordered := by
    split
    · exact List.Sublist.refl _
    · exact List.take_sublist _ _
  have hmem : ∀ r ∈ ordered, r ∈ RunStore.kept records ∧ ∀ p ∈ phase, r.phase = p :=
    fun r hr => mem_ofPhase.mp (hperm.mem_iff.mp hr)
  refine ⟨?_, ?_, ?_, ?_⟩
  · rw [List.map_map]
    have hnodup : (ordered.map RunRecord.runId).Nodup := by
      rw [(hperm.map RunRecord.runId).nodup_iff]
      exact (RunStore.nodup_kept records).sublist ((ofPhase_sublist _ _ _).map _)
    exact hnodup.sublist (hsub.map _)
  · rw [List.pairwise_map]
    exact hsorted.sublist hsub
  · rintro s hs
    obtain ⟨r, hr, rfl⟩ := List.mem_map.mp hs
    obtain ⟨hkept, hphase⟩ := hmem r (hsub.mem hr)
    refine ⟨hphase, r.detail, getRun_eq_ok.mpr ⟨r, ?_, rfl⟩, rfl⟩
    exact (RunStore.get_eq_some_iff records r.runId r).mpr ⟨hkept, rfl⟩
  · rintro hall runId _ hdetail hphase
    obtain ⟨r, hget, rfl⟩ := getRun_eq_ok.mp hdetail
    obtain ⟨hkept, -⟩ := (RunStore.get_eq_some_iff records runId r).mp hget
    have hordered : r ∈ ordered := hperm.mem_iff.mpr (mem_ofPhase.mpr ⟨hkept, hphase⟩)
    refine List.mem_map.mpr ⟨r, ?_, rfl⟩
    split
    case isTrue => exact hordered
    case isFalse hneg =>
      rw [List.length_map, if_neg hneg, List.length_take] at hall
      rwa [List.take_of_length_le (by omega)]

/-! ## After a series of requests -/

section Serve

variable {σ μ : Type} [Hashlib] [Unicode] {R : Type} [PyFloat R] [Memory μ] {d : Deployment σ μ}

/-- The requests that were to be saved, with their replies. -/
def savedRuns (requests : List (Endpoint × Arrival)) (replies : List Reply) :
    List ((Endpoint × Arrival) × Reply) :=
  (requests.zip replies).filter (·.1.2.request.saveRun)

/-- What requests to either endpoint leave in the store: a record for each that was to be saved,
with the id that its reply shows. -/
theorem Deployment.replies_store {requests : List (Endpoint × Arrival)} {replies : List Reply}
    {s s' : ServerState σ}
    (h : requests.mapM (fun request => d.reply R request.1 request.2) s = .ok replies s') :
    ∃ records : List RunRecord, s'.store = records.foldl RunStore.save s.store ∧
      records.map (fun r => some r.runId) = (savedRuns requests replies).map (·.2.runId) := by
  induction requests generalizing s replies with
  | nil =>
    cases h
    exact ⟨[], rfl, rfl⟩
  | cons request requests ih =>
    rw [List.mapM_cons] at h
    obtain ⟨reply, s₁, hreply, h⟩ := bind_eq_ok.mp h
    obtain ⟨rest, s₂, hrest, h⟩ := bind_eq_ok.mp h
    cases h
    obtain ⟨response, hinfer, rfl⟩ := (Deployment.reply_eq_ok R).mp hreply
    obtain ⟨pipe, result, t, -, hrun, -, rfl⟩ := (d.infer_eq_ok R request.2).mp hinfer
    obtain ⟨w, -, rfl⟩ := Deployment.runPipeline_eq_ok.mp hrun
    obtain ⟨records, hstore, hids⟩ := ih hrest
    rw [hstore, Deployment.conclude, savedRuns, List.zip_cons_cons, List.filter_cons]
    by_cases hsave : request.2.request.saveRun = true
    · rw [if_pos hsave, if_pos hsave]
      refine ⟨response.record request.2 :: records, rfl, ?_⟩
      rw [List.map_cons, List.map_cons, hids, Reply.runId_ofResponse]
      rfl
    · rw [if_neg hsave, if_neg hsave]
      exact ⟨records, rfl, hids⟩

/-- After any series of requests to either endpoint, in whatever order: the listing and the details
agree, and a run is shown under an id if and only if a reply to a request that was to be saved named
the id. -/
theorem Deployment.runs_shown [Sqlite] (d : Deployment σ μ) (requests : List (Endpoint × Arrival))
    (replies : List Reply) (w : σ) (s' : ServerState σ)
    (hserve : requests.mapM (fun request => d.reply R request.1 request.2) ⟨w, {}⟩ =
      .ok replies s') :
    (∀ limit phase summaries, listRuns s'.store limit phase = .ok summaries →
      RunsAgree s'.store limit phase summaries) ∧
    ∀ runId, (∃ detail, getRun s'.store runId = .ok detail) ↔
      ∃ run ∈ savedRuns requests replies, run.2.runId = some runId := by
  obtain ⟨records, hstore, hids⟩ := replies_store hserve
  rw [hstore]
  refine ⟨fun limit phase summaries hlist => runsAgree hlist, fun runId => ?_⟩
  have hnamed : (∃ run ∈ savedRuns requests replies, run.2.runId = some runId) ↔
      ∃ r ∈ records, r.runId = runId := by
    have hmem : some runId ∈ (savedRuns requests replies).map (·.2.runId) ↔
        some runId ∈ records.map fun r => some r.runId := by rw [hids]
    simpa [List.mem_map] using hmem
  rw [hnamed]
  constructor
  · rintro ⟨detail, hdetail⟩
    obtain ⟨r, hget, -⟩ := getRun_eq_ok.mp hdetail
    rw [RunStore.get_foldl_save] at hget
    split at hget
    case h_1 r' hlast => exact ⟨r', LastWrite.mem_of_last RunRecord.runId hlast⟩
    case h_2 => cases hget
  · rintro ⟨r, hr, rfl⟩
    obtain ⟨r', -, hlast, -⟩ := LastWrite.exists_last_of_mem RunRecord.runId hr
    refine ⟨r'.detail, getRun_eq_ok.mpr ⟨r', ?_, rfl⟩⟩
    rw [RunStore.get_foldl_save, hlast]

end Serve

section Examples

local instance shownHashlib : Hashlib := Hashlib.checksum
local instance shownUnicode : Unicode := Unicode.ascii
local instance shownFloat : PyFloat ℚ := PyFloat.rat
local instance shownSqlite : Sqlite := RunStore.stableSqlite

/-- A request to each of the endpoints. -/
theorem Deployment.runs_shown_two : ∃ replies s',
    [(Endpoint.infer, arrivalP), (.inferStream, arrivalLong)].mapM
        (fun request => mockDeployment.reply ℚ request.1 request.2) ⟨(), {}⟩ = .ok replies s' ∧
      (∀ limit phase summaries, listRuns s'.store limit phase = .ok summaries →
        RunsAgree s'.store limit phase summaries) ∧
      ∀ runId, (∃ detail, getRun s'.store runId = .ok detail) ↔
        ∃ run ∈ savedRuns [(Endpoint.infer, arrivalP), (.inferStream, arrivalLong)] replies,
          run.2.runId = some runId := by
  obtain ⟨replies, s', hserve, -⟩ : ∃ replies s',
      [(Endpoint.infer, arrivalP), (.inferStream, arrivalLong)].mapM
        (fun request => mockDeployment.reply ℚ request.1 request.2) ⟨(), {}⟩ =
          .ok replies s' ∧ True :=
    Returned.exists (by decide +kernel)
  exact ⟨replies, s', hserve, runs_shown mockDeployment _ replies () s' hserve⟩

end Examples

end Chen
