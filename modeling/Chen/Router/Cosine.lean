import Chen.Library.Effect
import Chen.Library.Ranking
import Chen.Python.Dict
import Chen.Python.Hashlib
import Chen.Python.Numpy
import Chen.Router.Selection

/-!
# The cosine router

Experts are ranked by the similarity of their prototype to the prompt's embedding. A prototype that
is missing is registered by the route that first needs it, so routing has a state.
-/

namespace Chen

open Effect

/-- `CosineRouter`, without the prototypes. -/
structure CosineRouter (R : Type) where
  minActivation : ℤ := 1
  maxActivation : ℤ := 3
  forceLastRole : ExpertRole := .synthesizer
  threshold : R
  embedDim : ℤ := 64
  embedFn : Option (String → Except Exn (List R)) := none

/-- `prototypes`: from names of experts to embeddings. -/
abbrev Prototypes (R : Type) : Type := Dict String (List R)

namespace CosineRouter

variable {σ R : Type} [Hashlib] [PyFloat R] [Numpy R]

open PyFloat (lit)

/-- The constructor. -/
def create (minActivation : ℤ := 1) (maxActivation : ℤ := 3)
    (forceLastRole : ExpertRole := .synthesizer) (threshold : R := lit (1 / 10))
    (embedDim : ℤ := 64) (embedFn : Option (String → Except Exn (List R)) := none) :
    CosineRouter R :=
  { minActivation, maxActivation, forceLastRole, threshold, embedDim, embedFn }

/-- A vector divided by its norm, if that is positive. -/
def normalize (v : List R) : List R :=
  let norm := PyFloat.sqrt (Numpy.sumSq v)
  if lit 0 < norm then Numpy.divide v norm else v

/-- The hash embedding, before it is normalized: one hash for every eight bytes, as far as the
number of characters reaches. -/
def hashEmbed (embedDim : ℤ) (text : String) : Except Exn (List R) :=
  if embedDim < 0 then .error (.value "negative dimensions are not allowed")
  else if embedDim = 0 then .error (.other "ZeroDivisionError" "integer modulo by zero")
  else
    .ok <| (List.range ((max text.length 1 + 7) / 8)).foldl (fun out k =>
      let chunk := ((Str.utf8 text).drop (8 * k)).take 8
      let h := Hashlib.blake2b [] chunk 4
      out.set (k % embedDim.toNat) (Numpy.float32 (lit ((intFromLittle h : ℚ) / 0xFFFFFFFF))))
      (List.replicate embedDim.toNat (Numpy.float32 (lit 0)))

/-- `_embed`. -/
def embed (router : CosineRouter R) (text : String) : Except Exn (List R) :=
  match router.embedFn with
  | some f => (·.map Numpy.float32) <$> f text
  | none => normalize <$> hashEmbed router.embedDim text

/-- The prototype of a list of sample prompts. -/
def prototypeOf (router : CosineRouter R) (samplePrompts : List String) :
    Except Exn (List R) := do
  let embs ← samplePrompts.mapM router.embed
  let embs ← Numpy.stack embs
  pure (normalize (Numpy.mean embs))

/-- `register_expert`. -/
def registerExpert (router : CosineRouter R) (e : Expert σ) (samplePrompts : List String) :
    EStateM Exn (Prototypes R) Unit :=
  if samplePrompts.isEmpty then pure ()
  else do
    let proto ← liftExcept (router.prototypeOf samplePrompts)
    modify (Dict.set · e.name proto)

/-- The sample prompts of an expert that has none: its role and its description. -/
def defaultSamples (e : Expert σ) : List String :=
  [e.role.value, if e.description = "" then e.role.value else e.description]

/-- The sample prompts that `from_experts` registers for an expert. -/
def samplesFor (samplePrompts : Dict String (List String)) (e : Expert σ) : List String :=
  match Dict.get? samplePrompts e.name with
  | some [] | none => defaultSamples e
  | some samples => samples

/-- `from_experts`: a new router, with a prototype registered for each expert. -/
def fromExperts (experts : List (Expert σ)) (samplePrompts : Dict String (List String) := [])
    (minActivation : ℤ := 1) (maxActivation : ℤ := 3) (forceLastRole : ExpertRole := .synthesizer)
    (threshold : R := lit (1 / 10)) (embedDim : ℤ := 64)
    (embedFn : Option (String → Except Exn (List R)) := none) :
    EStateM Exn (Prototypes R) (CosineRouter R) := do
  let router := create minActivation maxActivation forceLastRole threshold embedDim embedFn
  experts.forM fun e => router.registerExpert e (samplesFor samplePrompts e)
  pure router

/-- The expert's prototype, registered on the fly if it is missing. -/
def prototype (router : CosineRouter R) (e : Expert σ) : EStateM Exn (Prototypes R) (List R) := do
  match Dict.get? (← get) e.name with
  | some proto => pure proto
  | none =>
    router.registerExpert e (defaultSamples e)
    match Dict.get? (← get) e.name with
    | some proto => pure proto
    | none => throw (.other "KeyError" e.name)

/-- The similarity of an expert to the embedded prompt, and the expert. -/
def scoreExpert (router : CosineRouter R) (q : List R) (e : Expert σ) :
    EStateM Exn (Prototypes R) (R × Expert σ) := do
  let proto ← router.prototype e
  let sim ← liftExcept (Numpy.dot q proto)
  pure (sim, e)

/-- The selection before the absolute fallback. -/
def select (router : CosineRouter R) (scored : List (R × Expert σ)) : List String :=
  let selected :=
    ((sliceTo scored router.maxActivation).filter (router.threshold ≤ ·.1)).map (·.2.name)
  match scored with
  | best :: _ => if selected.length < router.minActivation then [best.2.name] else selected
  | [] => selected

/-- `route`. -/
def route (router : CosineRouter R) (prompt : String) (pool : List (Expert σ)) :
    EStateM Exn (Prototypes R) (List String) :=
  if pool.isEmpty then pure []
  else do
    let q ← liftExcept (router.embed prompt)
    let scored ← pool.mapM (router.scoreExpert q)
    let role := router.forceLastRole
    let selected := absoluteFallback pool role (router.select (Ranking.rank (·.1) scored))
    let missing := !selected.any (lastRoleNames pool role).contains
    let selected := moveLastRole pool role (appendLastRole pool role missing selected)
    pure (capActivation router.maxActivation selected)

/-! ## Similarities -/

/-- The prototype that an expert has, or is given, when `protos` are registered. -/
def prototypeIn (router : CosineRouter R) (protos : Prototypes R) (e : Expert σ) :
    Except Exn (List R) :=
  match Dict.get? protos e.name with
  | some proto => .ok proto
  | none => router.prototypeOf (defaultSamples e)

/-- The similarity of an expert to the prompt. -/
def similarity (router : CosineRouter R) (protos : Prototypes R) (prompt : String)
    (e : Expert σ) : Except Exn R := do
  let q ← router.embed prompt
  let proto ← router.prototypeIn protos e
  Numpy.dot q proto

/-- What `prototype` returns, and the prototypes of the other experts, which it leaves alone. -/
theorem prototype_spec {router : CosineRouter R} {e : Expert σ} {protos protos' : Prototypes R}
    {proto : List R} (h : router.prototype e protos = .ok proto protos') :
    router.prototypeIn protos e = .ok proto ∧
      ∀ n ≠ e.name, Dict.get? protos' n = Dict.get? protos n := by
  obtain ⟨_, _, hget, h⟩ := bind_eq_ok.mp h
  cases hget
  rw [prototypeIn]
  cases hfound : Dict.get? protos e.name with
  | some proto' =>
    rw [hfound] at h
    cases h
    exact ⟨rfl, fun _ _ => rfl⟩
  | none =>
    rw [hfound] at h
    obtain ⟨_, protos₁, hreg, h⟩ := bind_eq_ok.mp h
    obtain ⟨proto₁, _, hlift, hmod⟩ := bind_eq_ok.mp hreg
    obtain ⟨hproto, rfl⟩ := liftExcept_eq_ok.mp hlift
    cases hmod
    obtain ⟨_, _, hget, h⟩ := bind_eq_ok.mp h
    cases hget
    rw [Dict.get?_set_self] at h
    cases h
    exact ⟨hproto, fun n hn => Dict.get?_set_of_ne _ hn _⟩

/-- Only the expert's own entry matters for its prototype. -/
theorem prototypeIn_congr {router : CosineRouter R} {e : Expert σ} {protos protos' : Prototypes R}
    (h : Dict.get? protos' e.name = Dict.get? protos e.name) :
    router.prototypeIn protos' e = router.prototypeIn protos e := by
  rw [prototypeIn, prototypeIn, h]

/-- The score of an expert is its prototype's similarity. -/
theorem scoreExpert_spec {router : CosineRouter R} {q : List R} {e : Expert σ}
    {protos protos' : Prototypes R} {r : R × Expert σ}
    (h : router.scoreExpert q e protos = .ok r protos') :
    r.2 = e ∧ (router.prototypeIn protos e >>= Numpy.dot q) = .ok r.1 ∧
      ∀ n ≠ e.name, Dict.get? protos' n = Dict.get? protos n := by
  obtain ⟨proto, protos₁, hproto, h⟩ := bind_eq_ok.mp h
  obtain ⟨hin, hframe⟩ := prototype_spec hproto
  obtain ⟨sim, _, hlift, hpure⟩ := bind_eq_ok.mp h
  obtain ⟨hdot, rfl⟩ := liftExcept_eq_ok.mp hlift
  rw [pure_apply] at hpure
  cases hpure
  exact ⟨rfl, by rw [hin]; exact hdot, hframe⟩

/-- With distinct names, no expert's score depends on the prototypes that the loop registers for
the experts before it. -/
theorem mapM_scoreExpert {router : CosineRouter R} {prompt : String} {q : List R}
    (hq : router.embed prompt = .ok q) {protos₀ : Prototypes R} {pool : List (Expert σ)}
    (hnd : (pool.map (·.name)).Nodup) {protos protos' : Prototypes R}
    (hagree : ∀ e ∈ pool, Dict.get? protos e.name = Dict.get? protos₀ e.name)
    {scored : List (R × Expert σ)}
    (h : pool.mapM (router.scoreExpert q) protos = .ok scored protos') :
    List.Forall₂ (fun e r => r.2 = e ∧ router.similarity protos₀ prompt e = .ok r.1) pool
      scored := by
  induction pool generalizing protos scored with
  | nil =>
    cases h
    exact .nil
  | cons e pool ih =>
    rw [List.mapM_cons] at h
    obtain ⟨r, protos₁, hr, h⟩ := bind_eq_ok.mp h
    obtain ⟨rs, _, hrs, h⟩ := bind_eq_ok.mp h
    rw [pure_apply] at h
    cases h
    obtain ⟨hre, hdot, hframe⟩ := scoreExpert_spec hr
    obtain ⟨hnew, hnd⟩ := List.nodup_cons.mp hnd
    rw [prototypeIn_congr (hagree e (List.mem_cons_self ..))] at hdot
    have hagree₁ : ∀ e' ∈ pool, Dict.get? protos₁ e'.name = Dict.get? protos₀ e'.name := by
      intro e' he'
      have hne : e'.name ≠ e.name := fun heq => hnew (List.mem_map.mpr ⟨e', he', heq⟩)
      rw [hframe _ hne, hagree e' (List.mem_cons_of_mem _ he')]
    have hsim : router.similarity protos₀ prompt e = .ok r.1 := by
      rw [similarity, hq]
      exact hdot
    exact .cons ⟨hre, hsim⟩ (ih hnd hagree₁ hrs)

/-- Registering samples stores their prototype. -/
theorem registerExpert_eq {router : CosineRouter R} {e : Expert σ} {samples : List String}
    (hne : samples ≠ []) {proto : List R} (h : router.prototypeOf samples = .ok proto)
    (protos : Prototypes R) :
    router.registerExpert e samples protos = .ok () (Dict.set protos e.name proto) := by
  have hempty : ¬ samples.isEmpty := by simpa using hne
  rw [registerExpert, if_neg hempty, h, liftExcept_ok, bind_ok (pure_apply proto protos)]
  rfl

/-- A prototype that can be found is returned. -/
theorem prototype_returns {router : CosineRouter R} {e : Expert σ} {protos : Prototypes R}
    {proto : List R} (h : router.prototypeIn protos e = .ok proto) :
    ∃ protos', router.prototype e protos = .ok proto protos' := by
  rw [prototypeIn] at h
  rw [prototype, get_bind_apply]
  cases hfound : Dict.get? protos e.name with
  | some proto' =>
    rw [hfound] at h
    cases h
    exact ⟨protos, rfl⟩
  | none =>
    rw [hfound] at h
    have hne : defaultSamples e ≠ [] := by simp [defaultSamples]
    have hreg := registerExpert_eq (e := e) hne h protos
    refine ⟨Dict.set protos e.name proto, ?_⟩
    show (router.registerExpert e (defaultSamples e) >>= _) protos = _
    rw [bind_ok hreg, get_bind_apply, Dict.get?_set_self]
    rfl

/-- The loop over the experts returns when no similarity raises. -/
theorem mapM_scoreExpert_returns {router : CosineRouter R} {prompt : String} {q : List R}
    (hq : router.embed prompt = .ok q) {protos₀ : Prototypes R} {pool : List (Expert σ)}
    (hnd : (pool.map (·.name)).Nodup) {protos : Prototypes R}
    (hagree : ∀ e ∈ pool, Dict.get? protos e.name = Dict.get? protos₀ e.name)
    (hsim : ∀ e ∈ pool, ∃ sim, router.similarity protos₀ prompt e = .ok sim) :
    ∃ scored protos', pool.mapM (router.scoreExpert q) protos = .ok scored protos' := by
  induction pool generalizing protos with
  | nil => exact ⟨[], protos, rfl⟩
  | cons e pool ih =>
    obtain ⟨hnew, hnd⟩ := List.nodup_cons.mp hnd
    obtain ⟨sim, hsim_e⟩ := hsim e (List.mem_cons_self ..)
    rw [similarity, hq] at hsim_e
    cases hin : router.prototypeIn protos₀ e with
    | error x =>
      rw [hin] at hsim_e
      cases hsim_e
    | ok proto =>
      rw [hin] at hsim_e
      have hdot : Numpy.dot q proto = .ok sim := hsim_e
      rw [← prototypeIn_congr (hagree e (List.mem_cons_self ..))] at hin
      obtain ⟨protos₁, hproto⟩ := prototype_returns hin
      obtain ⟨-, hframe⟩ := prototype_spec hproto
      have hagree₁ : ∀ e' ∈ pool, Dict.get? protos₁ e'.name = Dict.get? protos₀ e'.name := by
        intro e' he'
        have hne : e'.name ≠ e.name := fun heq => hnew (List.mem_map.mpr ⟨e', he', heq⟩)
        rw [hframe _ hne, hagree e' (List.mem_cons_of_mem _ he')]
      obtain ⟨scored, protos', hscored⟩ :=
        ih hnd hagree₁ fun e' he' => hsim e' (List.mem_cons_of_mem _ he')
      have hscore : router.scoreExpert q e protos = .ok (sim, e) protos₁ := by
        rw [scoreExpert, bind_ok hproto, hdot]
        rfl
      refine ⟨(sim, e) :: scored, protos', ?_⟩
      rw [List.mapM_cons, bind_ok hscore, bind_ok hscored]
      rfl

end CosineRouter

end Chen
