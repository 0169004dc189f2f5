import Chen.Library.Ranking
import Chen.Router.Features
import Chen.Router.Selection
import Mathlib.Data.List.Dedup
import Mathlib.Data.List.Induction

/-!
# The logistic router

A logistic classifier for each role on the features of the prompt. The best expert of each role
competes for a place in the selection.
-/

namespace Chen

/-- `LogisticRouter`. -/
structure LogisticRouter (R : Type) where
  minActivation : ℤ := 1
  maxActivation : ℤ := 3
  forceLastRole : ExpertRole := .synthesizer
  threshold : R
  weights : Dict String (Dict String R)

namespace LogisticRouter

variable {σ R : Type} [PyFloat R]

open PyFloat (lit)
open Ranking

/-- `_default_weights`. -/
def defaultWeights : Dict String (Dict String R) :=
  [(ExpertRole.analyst.value,
      [("kw_analyst", lit 3), ("has_question", lit 1), ("length_long", lit (5 / 10)),
        ("bias", lit (-5 / 10))]),
    (ExpertRole.reasoner.value,
      [("kw_reasoner", lit 4), ("has_math", lit 2), ("length_long", lit (7 / 10)),
        ("bias", lit (-1))]),
    (ExpertRole.coder.value, [("kw_coder", lit 5), ("has_code", lit 3), ("bias", lit (-15 / 10))]),
    (ExpertRole.synthesizer.value,
      [("kw_synthesizer", lit 4), ("length_short", lit (5 / 10)), ("bias", lit 0)]),
    (ExpertRole.translator.value, [("kw_translator", lit 6), ("bias", lit (-2))]),
    (ExpertRole.generalist.value, [("bias", lit 0)])]

/-- The constructor: without weights, the default ones. -/
def create (minActivation : ℤ := 1) (maxActivation : ℤ := 3)
    (forceLastRole : ExpertRole := .synthesizer) (threshold : R := lit (15 / 100))
    (weights : Dict String (Dict String R) := []) : LogisticRouter R :=
  { minActivation, maxActivation, forceLastRole, threshold
    weights := if weights.isEmpty then defaultWeights else weights }

/-- `from_experts`: the constructor. Nothing is derived from the experts. -/
def fromExperts (_availableExperts : List (Expert σ)) (minActivation : ℤ := 1)
    (maxActivation : ℤ := 3) (forceLastRole : ExpertRole := .synthesizer)
    (threshold : R := lit (15 / 100)) (weights : Dict String (Dict String R) := []) :
    LogisticRouter R :=
  create minActivation maxActivation forceLastRole threshold weights

/-- The logit of a role: its bias and its weighted features. -/
def logit (features : Dict String R) (w : Dict String R) : R :=
  features.foldl (fun acc (fname, val) => acc + (w.get? fname).getD (lit 0) * val)
    ((w.get? "bias").getD (lit 0))

/-- `_score`: the sigmoid of each role's logit. -/
def score [Unicode] (router : LogisticRouter R) (prompt : String) : Except Exn (Dict String R) :=
  router.weights.foldlM (fun scores (roleValue, w) => do
    let e ← PyFloat.exp (-logit (extractFeatures R prompt) w)
    pure (Dict.set scores roleValue (lit 1 / (lit 1 + e)))) []

/-- The score of an expert: its role's, with a slight bonus for smaller experts. -/
def expertScore (scores : Dict String R) (e : Expert σ) : R :=
  (Dict.get? scores e.role.value).getD (lit 0) + lit (-1 / 10000) * (lit e.paramsM / lit 1000)

/-- One iteration of the loop that finds the best expert of each role. -/
def considerExpert (scores : Dict String R) (roleBest : Dict String (R × Expert σ))
    (e : Expert σ) : Dict String (R × Expert σ) :=
  let s := expertScore scores e
  match roleBest.get? e.role.value with
  | none => roleBest.set e.role.value (s, e)
  | some (best, _) => if best < s then roleBest.set e.role.value (s, e) else roleBest

/-- `role_best`. -/
def roleBest (scores : Dict String R) (pool : List (Expert σ)) : Dict String (R × Expert σ) :=
  pool.foldl (considerExpert scores) []

/-- `ranked`: the roles' best experts that reach the threshold, highest score first. -/
def ranked (router : LogisticRouter R) (scores : Dict String R) (pool : List (Expert σ)) :
    List (R × Expert σ) :=
  rank (·.1) (((roleBest scores pool).map (·.2)).filter (router.threshold ≤ ·.1))

/-- The selection before the absolute fallback. -/
def select (router : LogisticRouter R) (ranked : List (R × Expert σ)) : List String :=
  let selected := (sliceTo ranked router.maxActivation).map (·.2.name)
  match ranked with
  | best :: _ => if selected.length < router.minActivation then [best.2.name] else selected
  | [] => selected

/-- `_expert_role_name`. -/
def expertRoleName (pool : List (Expert σ)) (name : String) : String :=
  ((pool.find? (·.name = name)).map (·.role.value)).getD ""

/-- `route`. -/
def route [Unicode] (router : LogisticRouter R) (prompt : String) (pool : List (Expert σ)) :
    Except Exn (List String) :=
  if pool.isEmpty then .ok []
  else do
    let scores ← router.score prompt
    let role := router.forceLastRole
    let selected := absoluteFallback pool role (router.select (router.ranked scores pool))
    let missing := !(selected.map (expertRoleName pool)).contains role.value
    let selected := moveLastRole pool role (appendLastRole pool role missing selected)
    pure (capActivation router.maxActivation selected)

/-! ## The best expert of each role -/

/-- What the loop over `pool` establishes: one item for each role, in the order in which the roles
first occur, with an expert of the highest score. -/
structure IsRoleBest (score : Expert σ → R) (pool : List (Expert σ))
    (best : Dict String (R × Expert σ)) : Prop where
  key : ∀ p ∈ best, p.1 = p.2.2.role.value
  sound : ∀ p ∈ best, p.2.2 ∈ pool ∧ p.2.1 = score p.2.2
  covers : ∀ e ∈ pool, ∃ p ∈ best, p.2.2.role = e.role ∧ score e ≤ p.2.1
  order : (best.map (·.2.2.role)).Pairwise (Earlier (pool.map (·.role)))

section Step

variable {score : Expert σ → R} {pool : List (Expert σ)} {best : Dict String (R × Expert σ)}

/-- The best of the roles have roles of the pool. -/
theorem IsRoleBest.role_mem (h : IsRoleBest score pool best) {r : ExpertRole}
    (hr : r ∈ best.map (·.2.2.role)) : r ∈ pool.map (·.role) := by
  obtain ⟨p, hp, rfl⟩ := List.mem_map.mp hr
  exact List.mem_map_of_mem (h.sound p hp).1

/-- The order of the roles found so far is their order in a longer pool. -/
theorem IsRoleBest.order_append (h : IsRoleBest score pool best) (e : Expert σ) :
    (best.map (·.2.2.role)).Pairwise (Earlier ((pool ++ [e]).map (·.role))) := by
  rw [List.map_append]
  exact h.order.imp_of_mem fun ha hb hab => hab.append (h.role_mem ha) (h.role_mem hb) _

/-- The first expert of its role gets an item at the end. -/
theorem IsRoleBest.append_new (h : IsRoleBest score pool best) {e : Expert σ}
    (hnone : best.get? e.role.value = none) :
    IsRoleBest score (pool ++ [e]) (best ++ [(e.role.value, (score e, e))]) := by
  -- no expert of the role came before
  have hnew : e.role ∉ pool.map (·.role) := by
    intro hr
    obtain ⟨e', he', hrole⟩ := List.mem_map.mp hr
    obtain ⟨p, hp, hprole, -⟩ := h.covers e' he'
    refine Dict.get?_eq_none_iff.mp hnone p hp ?_
    rw [h.key p hp, hprole, hrole]
  refine ⟨?key, ?sound, ?covers, ?order⟩
  case key =>
    simpa [or_imp, forall_and] using h.key
  case sound =>
    intro p hp
    rcases List.mem_append.mp hp with hp | hp
    · exact ⟨List.mem_append_left _ (h.sound p hp).1, (h.sound p hp).2⟩
    · rw [List.mem_singleton.mp hp]
      simp
  case covers =>
    intro e' he'
    rcases List.mem_append.mp he' with he' | he'
    · obtain ⟨p, hp, hrole, hle⟩ := h.covers e' he'
      exact ⟨p, List.mem_append_left _ hp, hrole, hle⟩
    · rw [List.mem_singleton.mp he']
      exact ⟨_, List.mem_append_right _ (List.mem_singleton_self _), rfl, le_rfl⟩
  case order =>
    have hlast : ∀ r ∈ best.map (·.2.2.role), Earlier ((pool ++ [e]).map (·.role)) r e.role := by
      intro r hr
      rw [List.map_append]
      exact earlier_append_new (h.role_mem hr) hnew
    have hmap : (best ++ [(e.role.value, (score e, e))]).map (·.2.2.role) =
        best.map (·.2.2.role) ++ [e.role] := List.map_append
    rw [hmap, List.pairwise_append]
    exact ⟨h.order_append e, List.pairwise_singleton .., by simpa using hlast⟩

/-- A better expert replaces the one in its role's item. -/
theorem IsRoleBest.replace {l r : Dict String (R × Expert σ)} {k : String} {t : R} {x e : Expert σ}
    (h : IsRoleBest score pool (l ++ (k, (t, x)) :: r)) (hrole : e.role = x.role)
    (hle : t ≤ score e) :
    IsRoleBest score (pool ++ [e]) (l ++ (k, (score e, e)) :: r) := by
  -- all items but the one of the role are old
  have hold : ∀ {p}, p ∈ l ++ (k, (score e, e)) :: r →
      p = (k, (score e, e)) ∨ p ∈ l ++ (k, (t, x)) :: r := by
    intro p hp
    simp only [List.mem_append, List.mem_cons] at hp ⊢
    tauto
  refine ⟨?key, ?sound, ?covers, ?order⟩
  case key =>
    intro p hp
    rcases hold hp with rfl | hp
    · rw [h.key (k, (t, x)) (by simp)]
      exact congrArg ExpertRole.value hrole.symm
    · exact h.key p hp
  case sound =>
    intro p hp
    rcases hold hp with rfl | hp
    · simp
    · exact ⟨List.mem_append_left _ (h.sound p hp).1, (h.sound p hp).2⟩
  case covers =>
    intro e' he'
    rcases List.mem_append.mp he' with he' | he'
    · obtain ⟨p, hp, hprole, hle'⟩ := h.covers e' he'
      by_cases hp' : p = (k, (t, x))
      · subst hp'
        exact ⟨(k, (score e, e)), by simp, hrole.trans hprole, hle'.trans hle⟩
      · refine ⟨p, ?_, hprole, hle'⟩
        simp only [List.mem_append, List.mem_cons] at hp ⊢
        tauto
    · rw [List.mem_singleton.mp he']
      exact ⟨(k, (score e, e)), by simp, rfl, le_rfl⟩
  case order =>
    simpa [hrole] using h.order_append e

/-- An expert that is not better changes nothing. -/
theorem IsRoleBest.keep (h : IsRoleBest score pool best) {k : String} {t : R} {x e : Expert σ}
    (hx : (k, (t, x)) ∈ best) (hrole : e.role = x.role) (hle : score e ≤ t) :
    IsRoleBest score (pool ++ [e]) best := by
  refine ⟨h.key, ?sound, ?covers, h.order_append e⟩
  case sound =>
    exact fun p hp => ⟨List.mem_append_left _ (h.sound p hp).1, (h.sound p hp).2⟩
  case covers =>
    intro e' he'
    rcases List.mem_append.mp he' with he' | he'
    · exact h.covers e' he'
    · rw [List.mem_singleton.mp he']
      exact ⟨_, hx, hrole.symm, hle⟩

/-- One more expert is considered for its role. -/
theorem IsRoleBest.considerExpert {scores : Dict String R}
    (h : IsRoleBest (expertScore scores) pool best) (e : Expert σ) :
    IsRoleBest (expertScore scores) (pool ++ [e]) (considerExpert scores best e) := by
  rw [LogisticRouter.considerExpert]
  split
  case h_1 hnone =>
    rw [Dict.set_of_get?_eq_none hnone]
    exact h.append_new hnone
  case h_2 t x hsome =>
    obtain ⟨l, r, hbest, hset⟩ := Dict.set_of_get?_eq_some hsome (expertScore scores e, e)
    have hx : (e.role.value, (t, x)) ∈ best := by simp [hbest]
    have hrole : e.role = x.role := ExpertRole.value_injective (h.key _ hx)
    split
    case isTrue hlt =>
      rw [hset]
      exact (hbest ▸ h).replace hrole hlt.le
    case isFalse hle =>
      exact h.keep hx hrole (not_lt.mp hle)

end Step

/-- The loop finds the best expert of each role. -/
theorem isRoleBest_roleBest (scores : Dict String R) (pool : List (Expert σ)) :
    IsRoleBest (expertScore scores) pool (roleBest scores pool) := by
  induction pool using List.reverseRecOn with
  | nil => exact ⟨by simp [roleBest], by simp [roleBest], by simp, by simp [roleBest]⟩
  | append_singleton pool e ih =>
    rw [roleBest, List.foldl_append]
    exact ih.considerExpert e

/-- No expert of the pool has a higher score than its role's item. -/
theorem IsRoleBest.le {score : Expert σ → R} {pool : List (Expert σ)}
    {best : Dict String (R × Expert σ)} (h : IsRoleBest score pool best) {e : Expert σ}
    (he : e ∈ pool) {p : String × R × Expert σ} (hp : p ∈ best) (hrole : e.role = p.2.2.role) :
    score e ≤ p.2.1 := by
  obtain ⟨q, hq, hqrole, hle⟩ := h.covers e he
  have hpq : q = p :=
    List.inj_on_of_nodup_map (nodup_of_pairwise_earlier h.order) hq hp (hqrole.trans hrole)
  exact hpq ▸ hle

/-- The roles of the items are the roles of the pool. -/
theorem IsRoleBest.roles_perm {score : Expert σ → R} {pool : List (Expert σ)}
    {best : Dict String (R × Expert σ)} (h : IsRoleBest score pool best) :
    (best.map (·.2.2.role)).Perm (pool.map (·.role)).dedup := by
  rw [List.perm_ext_iff_of_nodup (nodup_of_pairwise_earlier h.order) (List.nodup_dedup _)]
  intro r
  rw [List.mem_dedup, List.mem_map, List.mem_map]
  constructor
  · rintro ⟨p, hp, rfl⟩
    exact ⟨_, (h.sound p hp).1, rfl⟩
  · rintro ⟨e, he, rfl⟩
    obtain ⟨p, hp, hrole, -⟩ := h.covers e he
    exact ⟨p, hp, hrole⟩

end LogisticRouter

end Chen
