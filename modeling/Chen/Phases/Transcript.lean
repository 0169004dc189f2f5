import Chen.Backends.Mock
import Chen.Phases.Equivalence

/-!
# The transcript behind the caches

In phase 2 over mock backends every expert decodes a cache of the whole conversation so far: the
prompt and all earlier outputs. The transcript survives the transfer between backends of different
shapes and is extended by the re-encoding at the end of each invocation.
-/

namespace Chen

open Effect

variable {σ μ : Type}

/-- The prompt and the outputs so far, one line each. -/
def transcript (prompt : String) (outputs : List String) : String :=
  String.intercalate "\n" (prompt :: outputs)

/-- One more output ends the transcript. -/
theorem transcript_append (prompt : String) (outputs : List String) (output : String) :
    transcript prompt (outputs ++ [output]) = transcript prompt outputs ++ "\n" ++ output := by
  have h := String.intercalate_append_of_ne_nil (s := "\n") (l := prompt :: outputs)
    (m := [output]) (by simp) (by simp)
  rwa [String.intercalate_singleton] at h

variable [Hashlib] [Unicode]

/-- The expert runs on a mock backend. -/
def Expert.Mocked (e : Expert σ) : Prop := ∃ b : MockBackend, e.backend = b.backend

namespace Expert.Mocked

variable {e : Expert σ}

/-- A mock backend supports caches. -/
theorem supportsKVCache (h : e.Mocked) : e.capabilities.supportsKVCache = true := by
  obtain ⟨b, hb⟩ := h
  rw [capabilities, hb]
  rfl

/-- A mock encodes a text to a cache of this text. -/
theorem encode_emits (h : e.Mocked) (text : String) :
    Emits handoffs (e.encode text : Run σ μ KVCache) fun cs r =>
      cs = [] ∧ ∃ c, r = .ok c ∧ c.sourceText = text := by
  obtain ⟨b, hb⟩ := h
  obtain ⟨c, hc, htext⟩ := b.encode_ok text
  refine (e.call_emits _ _).mono ?_
  rintro cs r ⟨rfl, w, hr⟩
  refine ⟨rfl, c, ?_, htext⟩
  rw [hr, hb]
  exact (outcome_liftExcept _ w).trans hc

/-- A mock accepts a cache, and keeps its text. -/
theorem transferCache_emits (h : e.Mocked) (cache : KVCache) :
    Emits handoffs (e.transferCache cache : Run σ μ KVCache) fun cs r =>
      ∃ c, cs = [⟨e, .transferCache cache (.ok c)⟩] ∧ r = .ok c ∧
        c.sourceText = cache.sourceText := by
  obtain ⟨b, hb⟩ := h
  obtain ⟨c, hc, htext⟩ := b.transferCache_ok cache
  refine (e.call_emits _ _).mono ?_
  rintro cs r ⟨rfl, w, hr⟩
  have hok : r = .ok c := by
    rw [hr, hb]
    exact (outcome_liftExcept _ w).trans hc
  exact ⟨c, by rw [hok]; rfl, hok, htext⟩

/-- A mock decodes every cache. -/
theorem decode_emits (h : e.Mocked) (cache : KVCache) (maxTokens : ℤ) :
    Emits handoffs (e.decode cache maxTokens : Run σ μ String) fun cs r =>
      ∃ out, cs = [⟨e, .decode cache maxTokens (.ok out)⟩] ∧ r = .ok out := by
  obtain ⟨b, hb⟩ := h
  refine (e.call_emits _ _).mono ?_
  rintro cs r ⟨rfl, w, hr⟩
  have hok : r = .ok (b.decode cache) := by
    rw [hr, hb]
    rfl
  exact ⟨b.decode cache, by rw [hok]; rfl, hok⟩

/-- The cache of an answer has the text and the answer behind it. -/
theorem outputCache_emits (h : e.Mocked) (text output : String) :
    Emits handoffs (e.outputCache text output : Run σ μ (Option KVCache)) fun cs r =>
      cs = [] ∧ ∃ c, r = .ok c ∧ ∃ c', c = some c' ∧ c'.sourceText = text ++ "\n" ++ output := by
  unfold outputCache
  rw [h.supportsKVCache, if_pos rfl]
  have hencode : Emits handoffs (attempt (e.encode (text ++ "\n" ++ output)) :
      Run σ μ (Except Exn KVCache)) fun cs r =>
        cs = [] ∧ ∃ a, r = .ok a ∧ ∃ c, a = .ok c ∧ c.sourceText = text ++ "\n" ++ output :=
    ((h.encode_emits _).mono fun _ r hr => ⟨hr.1, r, rfl, hr.2⟩).attempt
  refine hencode.bind_silent ?_
  rintro _ ⟨c, rfl, htext⟩
  exact Emits.pure ⟨rfl, _, rfl, c, rfl, htext⟩

/-- A mock counts the tokens of the text. -/
theorem meterTokens_emits (h : e.Mocked) (text output : String) :
    Emits handoffs (e.meterTokens text output : Run σ μ (ℤ × ℤ)) fun cs r =>
      cs = [] ∧ ∃ toks, r = .ok toks ∧ toks.1 = MockBackend.countTokens text := by
  obtain ⟨b, hb⟩ := h
  have hcount (s : String) : Emits handoffs
      (e.call (.countTokens s) (pure (MockBackend.countTokens s)) : Run σ μ ℤ) fun cs r =>
        cs = [] ∧ ∃ n, r = .ok n ∧ n = MockBackend.countTokens s :=
    (e.call_emits _ _).mono fun cs r ⟨hcs, w, hr⟩ => ⟨hcs, _, hr, rfl⟩
  unfold meterTokens
  rw [hb]
  refine Emits.bind_silent (P := fun r => ∃ toks, r = .ok toks ∧
    toks.1 = MockBackend.countTokens text) (Emits.attempt ?_) ?_
  · refine (hcount text).bind_silent fun i hi => (hcount output).bind_silent fun o _ => ?_
    exact Emits.pure ⟨rfl, _, rfl, (i, o), rfl, hi⟩
  · rintro _ ⟨toks, rfl, htoks⟩
    exact Emits.pure ⟨rfl, toks, rfl, htoks⟩

/-- What an invocation of a mocked expert on a cache does: the cache it decodes carries the text of
the cache it was given, the tokens of that text are metered, and the cache it hands on carries the
text and the output. -/
structure Extends (e : Expert σ) (cache : KVCache) (maxTokens : ℤ) (cs : List (Call σ))
    (answer : String × Option KVCache × ExpertMetrics) : Prop where
  calls : ∃ c, cs = [⟨e, .transferCache cache (.ok c)⟩, ⟨e, .decode c maxTokens (.ok answer.1)⟩] ∧
    c.sourceText = cache.sourceText
  outCache : ∃ c, answer.2.1 = some c ∧ c.sourceText = cache.sourceText ++ "\n" ++ answer.1
  inputTokens : answer.2.2.inputTokens = MockBackend.countTokens cache.sourceText
  succeeded : answer.2.2.cacheTransferSucceeded = true

/-- An `invoke` on a cache transfers it, decodes it and extends it by the output. -/
theorem invoke_emits (h : e.Mocked) (cache : KVCache) (maxTokens : ℤ) :
    Emits handoffs (e.invoke none (some cache) maxTokens :
      Run σ μ (String × Option KVCache × ExpertMetrics)) fun cs r =>
        ∃ answer, r = .ok answer ∧ Extends e cache maxTokens cs answer := by
  have htransfer : Emits handoffs
      (attempt (e.transferCache cache) : Run σ μ (Except Exn KVCache)) fun cs r =>
        ∃ c, r = .ok (.ok c) ∧ cs = [⟨e, .transferCache cache (.ok c)⟩] ∧
          c.sourceText = cache.sourceText :=
    ((h.transferCache_emits cache).mono fun cs r ⟨c, hcs, hr, htext⟩ =>
      ⟨c, congrArg _ hr, hcs, htext⟩).attempt
  rw [invoke_cache, if_pos h.supportsKVCache]
  refine timed_bind_emits htransfer ?_ ?_
  · rintro _ _ ms ⟨c, ha, rfl, htext⟩
    cases ha
    refine timed_bind_emits (h.decode_emits c maxTokens) ?_ ?_
    · rintro _ _ ms' ⟨out, rfl, ho⟩
      cases ho
      refine (h.outputCache_emits _ _).bind_silent ?_
      rintro _ ⟨c', rfl, hc'⟩
      refine (h.meterTokens_emits _ _).bind_silent fun toks htoks => ?_
      exact Emits.pure ⟨_, rfl, ⟨c, rfl, htext⟩, ⟨c', rfl, hc'⟩, htoks, rfl⟩
    · rintro _ x ⟨out, -, ho⟩
      cases ho
  · rintro _ x ⟨c, ha, -⟩
    cases ha

end Expert.Mocked

/-! ## The chain of decoded caches -/

/-- The `decode` calls of a trace. -/
def decodes (cs : List (Call σ)) : List (Call σ) := cs.filter (·.op.isDecode)

omit [Hashlib] [Unicode] in
/-- The trace without encodings has all decodes. -/
theorem decodes_handoffs (s : RunState σ μ) : decodes (handoffs s) = decodes s.calls := by
  simp only [decodes, handoffs, List.filter_filter]
  congr 1
  funext c
  cases hop : c.op <;> simp [Call.isHandoff, hop]

/-- Every expert of `names` decoded a cache of the prompt and the outputs before its own, and its
metrics `ms` count the tokens of that text. -/
structure DecodesTranscript (base : Pipeline σ) (prompt : String) (names : List String)
    (cs : List (Call σ)) (outputs : List String) (ms : List ExpertMetrics) : Prop where
  length_outputs : outputs.length = names.length
  length_decodes : (decodes cs).length = names.length
  length_metrics : ms.length = names.length
  decoded : ∀ i name, names[i]? = some name → ∃ e c maxTokens output,
    base.find name = some e ∧ outputs[i]? = some output ∧
      (decodes cs)[i]? = some ⟨e, .decode c maxTokens (.ok output)⟩ ∧
      c.sourceText = transcript prompt (outputs.take i)
  metered : ∀ i m, ms[i]? = some m →
    m.inputTokens = MockBackend.countTokens (transcript prompt (outputs.take i))

omit [Hashlib] [Unicode] in
/-- One more expert decodes the transcript so far. -/
theorem DecodesTranscript.snoc {base : Pipeline σ} {prompt : String} {names : List String}
    {cs : List (Call σ)} {outputs : List String} {ms : List ExpertMetrics}
    (h : DecodesTranscript base prompt names cs outputs ms) {name : String} {e : Expert σ}
    (hfind : base.find name = some e) {given c : KVCache} {maxTokens : ℤ} {output : String}
    (htext : c.sourceText = transcript prompt outputs) {m : ExpertMetrics}
    (hm : m.inputTokens = MockBackend.countTokens (transcript prompt outputs)) :
    DecodesTranscript base prompt (names ++ [name])
      (cs ++ [⟨e, .transferCache given (.ok c)⟩, ⟨e, .decode c maxTokens (.ok output)⟩])
      (outputs ++ [output]) (ms ++ [m]) := by
  have hdecodes : decodes (cs ++ [⟨e, .transferCache given (.ok c)⟩,
      ⟨e, .decode c maxTokens (.ok output)⟩]) =
        decodes cs ++ [⟨e, .decode c maxTokens (.ok output)⟩] := by
    simp [decodes, List.filter_append]
  have htake (i : ℕ) (hi : i ≤ names.length) : (outputs ++ [output]).take i = outputs.take i :=
    List.take_append_of_le_length (by rw [h.length_outputs]; exact hi)
  refine ⟨?_, ?_, ?_, ?_, ?_⟩
  · simp [h.length_outputs]
  · simp [hdecodes, h.length_decodes]
  · simp [h.length_metrics]
  · intro i n hn
    rw [hdecodes]
    by_cases hi : i < names.length
    · rw [List.getElem?_append_left hi] at hn
      obtain ⟨e', c', k, out, hfind', hout, hdec, htext'⟩ := h.decoded i n hn
      refine ⟨e', c', k, out, hfind', ?_, ?_, ?_⟩
      · rw [List.getElem?_append_left (by rw [h.length_outputs]; exact hi), hout]
      · rw [List.getElem?_append_left (by rw [h.length_decodes]; exact hi), hdec]
      · rw [htake i (by omega), htext']
    · have hlast : i = names.length ∧ name = n := by
        rw [List.getElem?_append_right (by omega), List.getElem?_singleton] at hn
        split at hn
        · exact ⟨by omega, Option.some.inj hn⟩
        · cases hn
      obtain ⟨rfl, rfl⟩ := hlast
      refine ⟨e, c, maxTokens, output, hfind, ?_, ?_, ?_⟩
      · rw [← h.length_outputs, List.getElem?_concat_length]
      · rw [← h.length_decodes, List.getElem?_concat_length]
      · rw [htake _ (Nat.le_refl _), ← h.length_outputs, List.take_length, htext]
  · intro i m' hm'
    by_cases hi : i < names.length
    · rw [List.getElem?_append_left (by rw [h.length_metrics]; exact hi)] at hm'
      rw [htake i (by omega), h.metered i m' hm']
    · have hlast : i = names.length ∧ m = m' := by
        rw [List.getElem?_append_right (by rw [h.length_metrics]; omega), h.length_metrics,
          List.getElem?_singleton] at hm'
        split at hm'
        · exact ⟨by omega, Option.some.inj hm'⟩
        · cases hm'
      obtain ⟨rfl, rfl⟩ := hlast
      rw [htake _ (Nat.le_refl _), ← h.length_outputs, List.take_length, hm]

/-! ## Whole runs -/

section Run

variable [Memory μ] {p : KVPassPipeline σ}

/-- The invocation of one iteration continues the transcript `text` of its predecessors. -/
def Continues (e : Expert σ) (text : String) (cs : List (Call σ)) (inv : Invocation) : Prop :=
  inv.textMode = false ∧ ∃ cache maxTokens, cache.sourceText = text ∧
    Expert.Mocked.Extends e cache maxTokens cs (inv.output, inv.outCache, inv.metrics)

/-- The first step of phase 2 begins the transcript. -/
theorem first_continues (hk : p.memoryRetrieveK = 0) {e : Expert σ} (he : e.Mocked)
    (maxTokens : ℤ) (prompt : String) :
    Emits handoffs (p.first e maxTokens prompt : Run σ μ Invocation) fun cs r =>
      ∃ inv, r = .ok inv ∧ Continues e prompt cs inv := by
  have hencode : Emits handoffs (KVPassPipeline.encodePrompt e prompt :
      Run σ μ (Option KVCache)) fun cs r =>
        cs = [] ∧ ∃ a, r = .ok a ∧ ∃ c, a = some c ∧ c.sourceText = prompt := by
    have htry : Emits handoffs (attempt (e.encode prompt) : Run σ μ (Except Exn KVCache))
        fun cs r => cs = [] ∧ ∃ a, r = .ok a ∧ ∃ c, a = .ok c ∧ c.sourceText = prompt :=
      ((he.encode_emits _).mono fun _ r hr => ⟨hr.1, r, rfl, hr.2⟩).attempt
    unfold KVPassPipeline.encodePrompt
    rw [he.supportsKVCache, if_pos rfl]
    refine htry.bind_silent ?_
    rintro _ ⟨c, rfl, htext⟩
    exact Emits.pure ⟨rfl, _, rfl, c, rfl, htext⟩
  rw [KVPassPipeline.first_eq hk]
  refine hencode.bind_silent ?_
  rintro _ ⟨cache, rfl, htext⟩
  refine (he.invoke_emits cache maxTokens).bind ?_ ?_
  · rintro cs answer ⟨_, hanswer, hextends⟩
    cases hanswer
    refine Emits.pure ⟨_, rfl, rfl, cache, maxTokens, htext, ?_⟩
    rwa [List.append_nil]
  · rintro cs x ⟨_, hx, -⟩
    cases hx

/-- A later step continues it. -/
theorem handOver_continues {e : Expert σ} (he : e.Mocked) (fallback : Bool) (maxTokens : ℤ)
    {st : HandoffProgress} (hmode : st.textMode = false) {cache : KVCache}
    (hcache : st.currentCache = some cache) :
    Emits handoffs (handOver e fallback maxTokens st : Run σ μ Invocation) fun cs r =>
      ∃ inv, r = .ok inv ∧ Continues e cache.sourceText cs inv := by
  unfold handOver
  rw [hmode, hcache]
  refine (he.invoke_emits cache maxTokens).bind ?_ ?_
  · rintro cs answer ⟨_, hanswer, hextends⟩
    cases hanswer
    simp only [hextends.succeeded, if_true]
    refine Emits.pure ⟨_, rfl, rfl, cache, maxTokens, rfl, ?_⟩
    rwa [List.append_nil]
  · rintro cs x ⟨_, hx, -⟩
    cases hx

/-- Where the loop stands: the transcript so far is what the current cache was encoded from. -/
structure InTranscript (base : Pipeline σ) (prompt : String) (done : List String)
    (cs : List (Call σ)) (st : HandoffProgress) (outputs : List String) : Prop where
  decodes : DecodesTranscript base prompt done cs outputs st.perExpert
  textMode : st.textMode = false
  cache : done ≠ [] → ∃ c, st.currentCache = some c ∧ c.sourceText = transcript prompt outputs

/-- One iteration continues the transcript. -/
theorem step_inTranscript (hk : p.memoryRetrieveK = 0) (prompt : String) {done : List String}
    {cs : List (Call σ)} {st : HandoffProgress} {outputs : List String}
    (h : InTranscript p.toPipeline prompt done cs st outputs) {name : String} {i : ℕ}
    (hi : i = 0 ↔ done = []) {e : Expert σ} (hfind : p.find name = some e) (he : e.Mocked) :
    Emits handoffs (p.step prompt st (name, i) : Run σ μ HandoffProgress) fun cs' r =>
      ∃ st' outputs', r = .ok st' ∧
        InTranscript p.toPipeline prompt (done ++ [name]) (cs ++ cs') st' outputs' := by
  have hinvoke (maxTokens : ℤ) : Emits handoffs
      (if i = 0 then p.first e maxTokens prompt
        else handOver e p.fallbackToText maxTokens st : Run σ μ Invocation) fun cs r =>
        ∃ inv, r = .ok inv ∧ Continues e (transcript prompt outputs) cs inv := by
    by_cases hdone : done = []
    · have hnil : outputs = [] := by
        rw [← List.length_eq_zero_iff, h.decodes.length_outputs, hdone, List.length_nil]
      have hprompt : transcript prompt outputs = prompt := by
        rw [hnil, transcript, String.intercalate_singleton]
      rw [if_pos (hi.mpr hdone), hprompt]
      exact first_continues hk he maxTokens prompt
    · obtain ⟨cache, hcache, htext⟩ := h.cache hdone
      rw [if_neg (fun h => hdone (hi.mp h)), ← htext]
      exact handOver_continues he _ maxTokens h.textMode hcache
  rw [p.step_eq prompt st i hfind]
  refine (hinvoke _).bind ?_ ?_
  · rintro cs' inv ⟨_, hinv, hmode, cache, maxTokens, htext, hextends⟩
    cases hinv
    obtain ⟨c, rfl, hc⟩ := hextends.calls
    obtain ⟨c', hc', htext'⟩ := hextends.outCache
    refine (recordHandoff_emits e _ _ rfl st _).mono ?_
    rintro cs'' r ⟨rfl, st', rfl, hrecords, hmode', hcache⟩
    refine ⟨st', outputs ++ [inv.output], rfl, ?_, hmode'.trans hmode, fun _ => ⟨c', ?_, ?_⟩⟩
    · rw [List.append_nil, hrecords.perExpert]
      exact h.decodes.snoc hfind (hc.trans htext) (by rw [← htext]; exact hextends.inputTokens)
    · rw [hcache]
      exact hc'
    · rw [htext', htext, transcript_append]
  · rintro cs' x ⟨inv, hinv, -⟩
    cases hinv

/-- In phase 2 over mock backends of any shapes, no context is lost: the run returns, every expert
decodes a cache of the prompt and all earlier outputs, and the tokens of exactly that text are
metered. -/
theorem KVPassPipeline.decodes_transcript (p : KVPassPipeline σ) (hk : p.memoryRetrieveK = 0)
    (hmocked : ∀ n ∈ p.sequence.names, ∀ e, p.find n = some e → e.Mocked) (prompt : String)
    (kwargs : Kwargs) (s : RunState σ μ) (hs : s.calls = []) :
    ∃ result s' outputs, p.run prompt kwargs s = .ok result s' ∧
      DecodesTranscript p.toPipeline prompt p.sequence.names s'.calls outputs result.perExpert := by
  have hloop : Emits handoffs (p.sequence.names.zipIdx.foldlM (p.step prompt)
      { metrics := { cost := p.cost }, currentText := prompt, textMode := false, kwargs } :
        Run σ μ HandoffProgress)
      (Ends (fun cs st => ∃ outputs,
          InTranscript p.toPipeline prompt (p.sequence.names.zipIdx.map Prod.fst) cs st outputs)
        fun _ _ => False) := by
    refine Emits.foldlM (I := fun done cs st => ∃ outputs,
      InTranscript p.toPipeline prompt (done.map Prod.fst) cs st outputs) ?_ ?_
    · rintro done ⟨name, i⟩ rest hsplit cs st ⟨outputs, h⟩
      obtain ⟨hnames, hzero⟩ := zipIdx_split hsplit
      have hmem : name ∈ p.sequence.names := by
        rw [← hnames]
        exact List.mem_append_right _ List.mem_cons_self
      obtain ⟨e, hfind⟩ := Option.isSome_iff_exists.mp (p.sequence.known name hmem)
      refine (step_inTranscript hk prompt h (by simpa using hzero) hfind
        (hmocked name hmem e hfind)).mono ?_
      rintro cs' r ⟨st', outputs', rfl, h'⟩
      exact ⟨outputs', by simpa using h'⟩
    · exact ⟨[], ⟨rfl, rfl, rfl, by simp, by simp⟩, rfl, fun h => absurd rfl h⟩
  have hrun : Emits handoffs (p.run prompt kwargs : Run σ μ PipelineResult) fun cs r =>
      ∃ result outputs, r = .ok result ∧
        DecodesTranscript p.toPipeline prompt p.sequence.names cs outputs result.perExpert := by
    unfold run
    refine (writePrompt_emits _ prompt).bind_silent fun _ _ => hloop.bind ?_ ?_
    · rintro cs st ⟨outputs, h⟩
      rw [List.zipIdx_map_fst] at h
      rw [p.toPipeline.getExperts_eq fun n hn =>
        Option.isSome_iff_exists.mp (p.sequence.known n hn)]
      refine Emits.pure ⟨_, outputs, rfl, ?_⟩
      rw [List.append_nil]
      exact h.decodes
    · rintro cs x h
      exact h.elim
  have hempty : handoffs s = [] := by rw [handoffs, hs, List.filter_nil]
  obtain ⟨result, outputs, hresult, h⟩ := hrun.run hempty
  refine ⟨result, _, outputs, eq_ok_of_outcome hresult, ?_⟩
  have hdecodes := decodes_handoffs (final (p.run prompt kwargs s))
  refine ⟨h.length_outputs, ?_, h.length_metrics, ?_, h.metered⟩
  · rw [← hdecodes]
    exact h.length_decodes
  · rw [← hdecodes]
    exact h.decoded

end Run

/-- Phase 2 over two experts on mock backends. -/
def duoMock (a b : MockBackend) : KVPassPipeline Unit where
  experts := [⟨"a", .analyst, a.backend, ""⟩, ⟨"b", .synthesizer, b.backend, ""⟩]
  cost := {}
  experts_ne := by simp
  sequence := ⟨["a", "b"], duo_names_ne, by simp [Pipeline.find]⟩
  memoryRetrieveK := 0

omit [Hashlib] [Unicode] in
/-- Two experts on mock backends. -/
theorem KVPassPipeline.decodes_transcript_duo :
    letI := Hashlib.zeros
    letI := Unicode.ascii
    ∃ result s' outputs, (duoMock {} { nLayers := 2 }).run "p" {} idle = .ok result s' ∧
      DecodesTranscript (duoMock {} { nLayers := 2 }).toPipeline "p" ["a", "b"] s'.calls outputs
        result.perExpert := by
  let _ := Hashlib.zeros
  let _ := Unicode.ascii
  refine decodes_transcript (duoMock {} { nLayers := 2 }) rfl ?_ "p" {} idle rfl
  intro n _ e hfind
  have he := List.mem_of_find?_eq_some hfind
  simp only [duoMock, List.reverse_cons, List.reverse_nil, List.nil_append, List.cons_append,
    List.mem_cons, List.not_mem_nil, or_false] at he
  rcases he with rfl | rfl
  · exact ⟨_, rfl⟩
  · exact ⟨_, rfl⟩

end Chen
