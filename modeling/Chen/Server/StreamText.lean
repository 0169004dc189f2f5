import Chen.Library.EventStream
import Chen.Python.JsonRoundTrip
import Chen.Server.Streaming

/-!
# The text of a stream

`infer_stream` writes its events in the format of server-sent events, with a JSON object as the data
of each. No name and no output can end a line there, so that a client reads the events as they were
sent. The texts have no lone surrogates: a text that has one is not encoded as UTF-8, and its event
is not sent.
-/

namespace Chen

open Effect
open JsonValue (Loaded loads ofPairs)

variable {F : Type}

/-- A `str` without surrogates, as a JSON value. -/
def JsonValue.ofString (s : String) : JsonValue F := .str (.ofString s)

namespace StreamEvent

/-- The dictionary that is sent, in the order in which it is written. `float` gives the numbers that
are no integers; `elapsedMs` is in the final event alone. -/
def items (float : ℚ → F) (elapsedMs : ℚ) : StreamEvent → List (String × JsonValue F)
  | .expert index expertName role latencyMs tokens =>
    [("type", .ofString "expert"), ("index", .int index), ("expert_name", .ofString expertName),
      ("role", .ofString role), ("latency_ms", .float (float latencyMs)), ("tokens", .int tokens)]
  | .done output selectedExperts totalTokens totalCostUsd totalLatencyMs epu kvTransfers runId
      configHash =>
    [("type", .ofString "done"), ("output", .ofString output),
      ("selected_experts", .list (selectedExperts.map .ofString)),
      ("total_tokens", .int totalTokens), ("total_cost_usd", .float (float totalCostUsd)),
      ("total_latency_ms", .float (float totalLatencyMs)), ("epu", .float (float epu)),
      ("kv_transfers", .int kvTransfers), ("run_id", .ofString runId),
      ("config_hash", .ofString configHash), ("elapsed_ms", .float (float elapsedMs))]

/-- The object that is encoded. Dictionaries are equal whatever the order of their items. -/
def object (float : ℚ → F) (elapsedMs : ℚ) (e : StreamEvent) : JsonValue F :=
  .dict (ofPairs ((e.items float elapsedMs).map fun kv => (.ofString kv.1, kv.2)))

/-- `_json.dumps(event)`. -/
def dumps [JsonFloat F] (float : ℚ → F) (elapsedMs : ℚ) (e : StreamEvent) : List Char :=
  (JsonValue.dict ((e.items float elapsedMs).map fun kv => (.ofString kv.1, kv.2))).write

/-- What is yielded for an event. -/
def chunk [JsonFloat F] (float : ℚ → F) (elapsedMs : ℚ) (e : StreamEvent) : List Char :=
  match e with
  | .expert .. => "data: ".toList ++ e.dumps float elapsedMs ++ "\n\n".toList
  | .done .. => "event: done\ndata: ".toList ++ e.dumps float elapsedMs ++ "\n\n".toList

/-- The type of the message, unless it is the default one. -/
def type? : StreamEvent → Option (List Char)
  | .expert .. => none
  | .done .. => some "done".toList

end StreamEvent

/-- The text of a series of events. -/
def streamText [JsonFloat F] (float : ℚ → F) (elapsedMs : ℚ) (events : List StreamEvent) :
    List Char :=
  events.flatMap (·.chunk float elapsedMs)

namespace StreamEvent

variable (float : ℚ → F) (elapsedMs : ℚ) (e : StreamEvent)

/-- An event can be written and loaded again. -/
theorem loaded_items : ∀ kv ∈ e.items float elapsedMs, Loaded kv.2 := by
  have hstr (s : String) : Loaded (.ofString s : JsonValue F) := .str (PyStr.paired_ofString s)
  cases e with
  | expert =>
    simp only [items, List.forall_mem_cons, List.not_mem_nil, false_imp_iff, implies_true, and_true]
    exact ⟨hstr _, .int _, hstr _, hstr _, .float _, .int _⟩
  | done =>
    simp only [items, List.forall_mem_cons, List.not_mem_nil, false_imp_iff, implies_true, and_true]
    refine ⟨hstr _, hstr _, .list ?_, .int _, .float _, .float _, .float _, .int _, hstr _, hstr _,
      .float _⟩
    exact List.forall_mem_map.mpr fun s _ => hstr s

/-- The object is read back from its text. -/
theorem loads_dumps [JsonFloat F] :
    loads (e.dumps float elapsedMs) = .ok (e.object float elapsedMs) :=
  JsonValue.loads_write_dict
    (List.forall_mem_map.mpr fun kv _ => PyStr.paired_ofString kv.1)
    (List.forall_mem_map.mpr (e.loaded_items float elapsedMs))

/-- No event has a line end. -/
theorem inLine_dumps [JsonFloat F] : EventStream.InLine (e.dumps float elapsedMs) := by
  have hprinted : Json.Printed (e.dumps float elapsedMs) :=
    JsonValue.printed_dict (List.forall_mem_map.mpr fun kv hkv =>
      (e.loaded_items float elapsedMs kv hkv).printed)
  intro c hc
  have hcontrol := hprinted c hc
  constructor
  · rintro rfl
    exact absurd hcontrol (by decide)
  · rintro rfl
    exact absurd hcontrol (by decide)

/-- A chunk is a message of the format. -/
theorem chunk_eq_write [JsonFloat F] :
    e.chunk float elapsedMs = EventStream.write e.type? (e.dumps float elapsedMs) := by
  have hexpert (text : List Char) : "data: ".toList ++ text ++ "\n\n".toList =
      EventStream.write none text := by
    simp [EventStream.write, EventStream.writeField]
  have hdone (text : List Char) : "event: done\ndata: ".toList ++ text ++ "\n\n".toList =
      EventStream.write (some "done".toList) text := by
    simp [EventStream.write, EventStream.writeField]
  cases e with
  | expert => exact hexpert _
  | done => exact hdone _

/-- An event may be written. -/
theorem writable [JsonFloat F] : EventStream.Writable e.type? (e.dumps float elapsedMs) := by
  refine ⟨?_, ?_, e.inLine_dumps float elapsedMs⟩
  · cases e <;> simp [type?]
  · cases e with
    | expert => exact nofun
    | done =>
      rintro t ⟨⟩
      decide

end StreamEvent

/-- What a client reads of a stream are its events, in their order. -/
theorem parse_streamText [JsonFloat F] (float : ℚ → F) (elapsedMs : ℚ) (events : List StreamEvent) :
    EventStream.parse (streamText float elapsedMs events) =
      events.map fun e => .of e.type? (e.dumps float elapsedMs) := by
  have htext : streamText float elapsedMs events =
      (events.map fun e => (e.type?, e.dumps float elapsedMs)).flatMap
        fun m => EventStream.write m.1 m.2 := by
    rw [streamText, List.flatMap_map]
    exact congrArg (List.flatMap · events)
      (funext fun e => StreamEvent.chunk_eq_write float elapsedMs e)
  rw [htext, EventStream.parse_flatMap_write, List.map_map]
  · rfl
  · exact List.forall_mem_map.mpr fun e _ => e.writable float elapsedMs

/-! ## The endpoint -/

section Endpoint

variable {σ μ : Type} [JsonFloat F] [Hashlib] (R : Type) [PyFloat R] [Memory μ] (float : ℚ → F)

/-- What `_generate` yields, `elapsedMs` after it began to run the pipeline. -/
def Deployment.generate [Unicode] (d : Deployment σ μ) (a : Arrival) (elapsedMs : ℚ) :
    EStateM Exn (ServerState σ) (List Char) :=
  streamText float elapsedMs <$> d.inferStream R a

/-- The final event of a result. -/
def StreamEvent.final (req : InferRequest) (result : PipelineResult) : StreamEvent :=
  .done result.output result.selectedExperts result.metrics.totalTokens result.metrics.totalCostUsd
    result.metrics.totalLatencyMs result.metrics.epu result.metrics.kvCacheTransfers
    (InferResponse.ofResult req result).runId (InferResponse.ofResult req result).configHash

/-- A client reads one message for each expert, in their order, and the final one, and decodes from
each of them the object that was encoded. -/
def Framed (elapsedMs : ℚ) (req : InferRequest) (result : PipelineResult) (text : List Char) :
    Prop :=
  ∃ messages last, EventStream.parse text = messages ++ [last] ∧
    List.Forall₂ (fun p (m : EventStream.Message) => m.type = "message".toList ∧
        loads m.data = .ok ((StreamEvent.ofMetrics p.1 p.2).object float elapsedMs))
      result.perExpert.zipIdx messages ∧
    last.type = "done".toList ∧
    loads last.data = .ok ((StreamEvent.final req result).object float elapsedMs)

/-- The text of a stream is read as its events, in order. -/
theorem framed_streamText (elapsedMs : ℚ) (req : InferRequest) (result : PipelineResult) :
    Framed float elapsedMs req result
      (streamText float elapsedMs (InferResponse.ofResult req result).events) := by
  rw [Framed, parse_streamText, InferResponse.events_ofResult, List.map_append, List.map_singleton]
  refine ⟨_, _, rfl, ?_, rfl, StreamEvent.loads_dumps float elapsedMs (StreamEvent.final req result)⟩
  rw [List.map_map, List.forall₂_map_right_iff, List.forall₂_same]
  exact fun p _ => ⟨rfl, StreamEvent.loads_dumps float elapsedMs _⟩

/-- Whatever a pipeline returns, the text that the endpoint yields for it is framed. -/
theorem infer_stream_framed [Unicode] :
    (∀ elapsedMs req result, Framed float elapsedMs req result
      (streamText float elapsedMs (InferResponse.ofResult req result).events)) ∧
    ∀ (d : Deployment σ μ) a elapsedMs s text s',
      d.generate R float a elapsedMs s = .ok text s' →
        ∃ pipe result s₁, d.pipeline R a.request = .ok pipe ∧
          d.runPipeline pipe a s = .ok result s₁ ∧
          Framed float elapsedMs a.request result text := by
  refine ⟨framed_streamText float, fun d a elapsedMs s text s' h => ?_⟩
  obtain ⟨events, hevents, rfl⟩ := map_eq_ok.mp h
  obtain ⟨response, hinfer, rfl⟩ := (d.inferStream_eq_ok R a).mp hevents
  obtain ⟨pipe, result, s₁, hpipe, hrun, rfl, -⟩ := (d.infer_eq_ok R a).mp hinfer
  exact ⟨pipe, result, s₁, hpipe, hrun, framed_streamText float elapsedMs a.request result⟩

end Endpoint

section Examples

local instance framedFloats : JsonFloat ℕ := .tenths
local instance framedHashlib : Hashlib := Hashlib.checksum
local instance framedUnicode : Unicode := Unicode.ascii
local instance framedNumbers : PyFloat ℚ := PyFloat.rat

/-- A stream of the mock deployment. -/
theorem infer_stream_framed_mock : ∃ text s' pipe result s₁,
    mockDeployment.generate ℚ (fun x => (10 * x).floor.toNat) arrivalP 5 ⟨(), {}⟩ = .ok text s' ∧
      mockDeployment.pipeline ℚ arrivalP.request = .ok pipe ∧
      mockDeployment.runPipeline pipe arrivalP ⟨(), {}⟩ = .ok result s₁ ∧
      Framed (fun x => (10 * x).floor.toNat) 5 arrivalP.request result text := by
  obtain ⟨events, s', hevents, -⟩ : ∃ events s',
      mockDeployment.inferStream ℚ arrivalP ⟨(), {}⟩ = .ok events s' ∧ True :=
    Returned.exists (by decide +kernel)
  have htext : mockDeployment.generate ℚ (fun x => (10 * x).floor.toNat) arrivalP 5 ⟨(), {}⟩ =
      .ok (streamText (fun x => (10 * x).floor.toNat) 5 events) s' :=
    map_eq_ok.mpr ⟨events, hevents, rfl⟩
  obtain ⟨pipe, result, s₁, h⟩ := (infer_stream_framed ℚ fun x => (10 * x).floor.toNat).2
    mockDeployment arrivalP 5 ⟨(), {}⟩ _ s' htext
  exact ⟨_, s', pipe, result, s₁, htext, h⟩

end Examples

end Chen
