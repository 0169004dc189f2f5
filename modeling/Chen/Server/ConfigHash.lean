import Chen.Python.JsonCanonical
import Chen.Server.Streaming

/-!
# What a config hash tells

The hash in a response is that of the config that its request resolved to, and of no other.
-/

namespace Chen

open Effect

namespace InferConfig

/-- A resolved config has no key twice. -/
theorem distinct_items (c : InferConfig) : (Json.dict c.items).Distinct := by
  have hsequence : (Json.list (c.sequence.map .str)).Distinct :=
    .list (List.forall_mem_map.mpr fun name _ => .str name)
  refine .dict ?_ ?_
  · show ["phase", "backend", "router", "max_tokens", "sequence"].Nodup
    decide
  · simp only [items, List.forall_mem_cons]
    exact ⟨.int _, .str _, .str _, .int _, hsequence, List.forall_mem_nil _⟩

/-- A config is what its dictionary stands for. -/
theorem toValue_injective {c c' : InferConfig}
    (h : (Json.dict c.items).toValue = (Json.dict c'.items).toValue) : c = c' := by
  have hitem : ∀ kv ∈ c.items, ∀ v', (∀ v, (kv.1, v) ∈ c'.items → v = v') →
      v'.toValue = kv.2.toValue := by
    intro kv hkv v' honly
    obtain ⟨v, hv, heq⟩ := Json.exists_mem_of_toValue_eq h hkv
    rwa [honly v hv] at heq
  have hphase := hitem ("phase", .int c.phase) (by simp [items]) (.int c'.phase)
    (by simp [items])
  have hbackend := hitem ("backend", .str c.backend) (by simp [items]) (.str c'.backend)
    (by simp [items])
  have hrouter := hitem ("router", .str c.router) (by simp [items]) (.str c'.router)
    (by simp [items])
  have htokens := hitem ("max_tokens", .int c.maxTokens) (by simp [items]) (.int c'.maxTokens)
    (by simp [items])
  have hsequence := hitem ("sequence", .list (c.sequence.map .str)) (by simp [items])
    (.list (c'.sequence.map .str)) (by simp [items])
  simp only [Json.toValue, Json.toValues_eq_map, JsonValue.int.injEq, JsonValue.str.injEq,
    JsonValue.list.injEq, List.map_map] at hphase hbackend hrouter htokens hsequence
  have hnames : Function.Injective (Json.toValue ∘ Json.str) := by
    intro s t hst
    exact PyStr.ofString_injective (JsonValue.str.inj hst)
  cases c
  cases c'
  simp only [InferConfig.mk.injEq]
  exact ⟨(Int.ofNat.inj hphase).symm, (PyStr.ofString_injective hbackend).symm,
    (PyStr.ofString_injective hrouter).symm, htokens.symm,
    (List.map_injective_iff.mpr hnames hsequence).symm⟩

/-- The text that is hashed. -/
def text (c : InferConfig) : String := (Json.dict c.items).dumps

/-- Different configs have different texts. -/
theorem text_injective : Function.Injective text := by
  intro c c' h
  exact toValue_injective ((Json.dumps_eq_iff c.distinct_items c'.distinct_items).mp h)

end InferConfig

namespace Deployment

variable {σ μ : Type} [Hashlib] [Unicode] {R : Type} [PyFloat R] [Memory μ] {d : Deployment σ μ}

/-- A response shows the hash of the config that its request resolves to. -/
theorem configHash_spec {a : Arrival} {response : InferResponse} {s s' : ServerState σ}
    (h : d.infer R a s = .ok response s') :
    ∃ c, d.config R a.request = .ok c ∧ response.configHash = c.hash := by
  obtain ⟨pipe, result, s₁, hpipe, hrun, rfl, -⟩ := (d.infer_eq_ok R a).mp h
  obtain ⟨hnames, -⟩ := d.runPipeline_shows a hrun
  refine ⟨_, ?_, rfl⟩
  rw [config, hpipe]
  show (pipe.names a.request.prompt >>= _) = _
  rw [hnames]
  rfl

/-- Unless SHA-256 collides on the texts of the two configs, two responses show one hash if and only
if their requests resolved to one config, whatever the server did before and in between. -/
theorem configHash_eq_iff (d : Deployment σ μ) (a a' : Arrival) (response response' : InferResponse)
    (s s' t t' : ServerState σ) (h : d.infer R a s = .ok response s')
    (h' : d.infer R a' t = .ok response' t')
    (hsha : ∀ c c', d.config R a.request = .ok c → d.config R a'.request = .ok c' →
      Hashlib.sha256 (Str.utf8 c.text) = Hashlib.sha256 (Str.utf8 c'.text) → c.text = c'.text) :
    response.configHash = response'.configHash ↔ d.SameConfig R a.request a'.request := by
  obtain ⟨c, hc, hhash⟩ := configHash_spec h
  obtain ⟨c', hc', hhash'⟩ := configHash_spec h'
  have hsame : d.SameConfig R a.request a'.request ↔ c = c' := by
    constructor
    · rintro ⟨c₀, hc₀, hc₀'⟩
      rw [hc] at hc₀
      rw [hc'] at hc₀'
      exact (Except.ok.inj hc₀).trans (Except.ok.inj hc₀').symm
    · rintro rfl
      exact ⟨c, hc, hc'⟩
  rw [hhash, hhash', hsame]
  constructor
  · intro heq
    exact InferConfig.text_injective (hsha c c' hc hc' (Str.hex_injective heq))
  · exact congrArg InferConfig.hash

end Deployment

section Examples

local instance hashedHashlib : Hashlib := Hashlib.checksum
local instance hashedUnicode : Unicode := Unicode.ascii
local instance hashedFloat : PyFloat ℚ := PyFloat.rat

/-- A request and one that allows more tokens, whose configs have different digests. -/
theorem Deployment.configHash_eq_iff_tokens : ∃ response response' s' t',
    mockDeployment.infer ℚ arrivalP ⟨(), {}⟩ = .ok response s' ∧
    mockDeployment.infer ℚ arrivalLong ⟨(), {}⟩ = .ok response' t' ∧
    (response.configHash = response'.configHash ↔
      mockDeployment.SameConfig ℚ arrivalP.request arrivalLong.request) := by
  obtain ⟨response, s', h, -⟩ : ∃ response s',
      mockDeployment.infer ℚ arrivalP ⟨(), {}⟩ = .ok response s' ∧ True :=
    Returned.exists (by decide +kernel)
  obtain ⟨response', t', h', -⟩ : ∃ response' t',
      mockDeployment.infer ℚ arrivalLong ⟨(), {}⟩ = .ok response' t' ∧ True :=
    Returned.exists (by decide +kernel)
  have hp : mockDeployment.config ℚ arrivalP.request = .ok (cascadeConfig 128) := by
    decide
  have hlong : mockDeployment.config ℚ arrivalLong.request = .ok (cascadeConfig 256) := by
    decide
  refine ⟨response, response', s', t', h, h', configHash_eq_iff mockDeployment arrivalP arrivalLong
    response response' _ s' _ t' h h' ?_⟩
  rintro c c' hc hc' hsha
  cases hp.symm.trans hc
  cases hlong.symm.trans hc'
  simp only [InferConfig.text, Json.dumps, Str.utf8_ofList] at hsha
  exact absurd hsha (by decide +kernel)

end Examples

end Chen
