import Chen.Router.ForceLast
import Chen.Router.Hybrid

/-!
# Proper selections

Whatever weights, thresholds, prototypes and minimum a router is built with, a route returns
distinct names of the pool, within the cap, and none only for the empty pool. The hybrid router
keeps this and ends with the forced role.
-/

namespace Chen

open Effect Ranking

variable {σ R : Type}

/-- What a route is to return for a pool under a cap. -/
structure Proper (pool : List (Expert σ)) (maxActivation : ℤ) (names : List String) : Prop
    extends Chosen pool names where
  length_le_max : (names.length : ℤ) ≤ maxActivation
  nil_iff : names = [] ↔ pool = []

/-- Nothing is selected from an empty pool. -/
theorem Proper.nil {m : ℤ} (hm : 1 ≤ m) : Proper ([] : List (Expert σ)) m [] where
  toChosen := .nil
  length_le_max := by simpa using by omega
  nil_iff := by simp

section Finish

variable {pool : List (Expert σ)} {selected : List String}

/-- The end of a route, the fallback, the forced role and the cap, keeps to the pool. -/
theorem chosen_finish (h : Chosen pool selected) (m : ℤ) (role : ExpertRole) (missing : Bool) :
    Chosen pool (capActivation m (moveLastRole pool role
      (appendLastRole pool role missing (absoluteFallback pool role selected)))) := by
  have happend := (h.absoluteFallback role).appendLastRole role missing
  exact (happend.perm (moveLastRole_perm pool role happend.nodup)).sublist (capActivation_sublist m)

/-- What is chosen from the pool is proper once the role is forced and the cap applied. -/
theorem proper_of_chosen (h : Chosen pool selected) (hne : pool ≠ []) {m : ℤ} (hm : 1 ≤ m)
    (role : ExpertRole) (missing : Bool) :
    Proper pool m (capActivation m (moveLastRole pool role
      (appendLastRole pool role missing (absoluteFallback pool role selected)))) := by
  have hmove_ne := moveLastRole_ne_nil pool role
    (appendLastRole_ne_nil pool role missing (absoluteFallback_ne_nil hne role selected))
  refine ⟨chosen_finish h m role missing, ?cap, ?nil⟩
  case cap => exact length_capActivation_le (by omega)
  case nil => exact iff_of_false (capActivation_ne_nil hmove_ne) hne

end Finish

/-! ## The logistic router -/

namespace LogisticRouter

variable [PyFloat R]

/-- The ranking is chosen from the pool. -/
theorem chosen_ranked (router : LogisticRouter R) (scores : Dict String R)
    {pool : List (Expert σ)} (hnd : (pool.map (·.name)).Nodup) :
    Chosen pool ((router.ranked scores pool).map (·.2.name)) := by
  have hbest := isRoleBest_roleBest scores pool
  have hall : Chosen pool (((roleBest scores pool).map (·.2)).map (·.2.name)) := by
    rw [List.map_map]
    constructor
    · have hroles := nodup_of_pairwise_earlier hbest.order
      refine (hroles.of_map).map_on fun p hp q hq hname => ?_
      have hexpert : p.2.2 = q.2.2 :=
        List.inj_on_of_nodup_map hnd (hbest.sound p hp).1 (hbest.sound q hq).1 hname
      exact List.inj_on_of_nodup_map hroles hp hq (congrArg Expert.role hexpert)
    · intro n hn
      obtain ⟨p, hp, rfl⟩ := List.mem_map.mp hn
      exact List.mem_map_of_mem (hbest.sound p hp).1
  exact (hall.sublist (List.filter_sublist.map _)).perm ((rank_perm ..).map _)

omit [PyFloat R] in
/-- The logistic selection is chosen from the pool. -/
theorem chosen_select (router : LogisticRouter R) {pool : List (Expert σ)}
    {ranked : List (R × Expert σ)} (h : Chosen pool (ranked.map (·.2.name))) :
    Chosen pool (router.select ranked) := by
  have hslice : Chosen pool ((sliceTo ranked router.maxActivation).map (·.2.name)) :=
    h.sublist ((sliceTo_sublist ..).map _)
  cases ranked with
  | nil => exact hslice
  | cons best rest =>
    rw [select]
    split
    case isTrue => exact h.sublist (by simp)
    case isFalse => exact hslice

variable [Unicode]

/-- Whatever the cap, a route keeps to the pool. -/
theorem route_chosen {router : LogisticRouter R} {prompt : String} {pool : List (Expert σ)}
    (hnd : (pool.map (·.name)).Nodup) {names : List String}
    (h : router.route prompt pool = .ok names) : Chosen pool names := by
  rw [route] at h
  split at h
  case isTrue hempty =>
    cases h
    exact .nil
  case isFalse hne =>
    cases hscores : router.score prompt with
    | error x =>
      rw [hscores] at h
      cases h
    | ok scores =>
      rw [hscores] at h
      cases h
      exact chosen_finish (router.chosen_select (router.chosen_ranked scores hnd)) ..

/-- A route that returns, returns a proper selection. -/
theorem route_proper {router : LogisticRouter R} (hmax : 1 ≤ router.maxActivation)
    {prompt : String} {pool : List (Expert σ)} (hnd : (pool.map (·.name)).Nodup)
    {names : List String} (h : router.route prompt pool = .ok names) :
    Proper pool router.maxActivation names := by
  rw [route] at h
  split at h
  case isTrue hempty =>
    cases h
    rw [List.isEmpty_iff.mp hempty]
    exact .nil hmax
  case isFalse hne =>
    cases hscores : router.score prompt with
    | error x =>
      rw [hscores] at h
      cases h
    | ok scores =>
      rw [hscores] at h
      cases h
      exact proper_of_chosen (router.chosen_select (router.chosen_ranked scores hnd))
        (by simpa using hne) hmax ..

/-- A route returns when the scores do not raise. -/
theorem route_returns {router : LogisticRouter R} {prompt : String} {scores : Dict String R}
    (hscores : router.score prompt = .ok scores) (pool : List (Expert σ)) :
    ∃ names, router.route prompt pool = .ok names := by
  rw [route, hscores]
  split
  case isTrue => exact ⟨_, rfl⟩
  case isFalse => exact ⟨_, rfl⟩

end LogisticRouter

/-! ## The cosine router -/

namespace CosineRouter

/-- The scored experts are chosen from the pool. -/
theorem chosen_scored {pool : List (Expert σ)} (hnd : (pool.map (·.name)).Nodup)
    (score : Expert σ → R) : Chosen pool ((pool.map fun e => (score e, e)).map (·.2.name)) := by
  rw [List.map_map]
  exact ⟨hnd, fun _ hn => hn⟩

variable [PyFloat R]

/-- The cosine selection is chosen from the pool. -/
theorem chosen_select (router : CosineRouter R) {pool : List (Expert σ)}
    {ranked : List (R × Expert σ)} (h : Chosen pool (ranked.map (·.2.name))) :
    Chosen pool (router.select ranked) := by
  have hslice : Chosen pool (((sliceTo ranked router.maxActivation).filter
      (router.threshold ≤ ·.1)).map (·.2.name)) :=
    h.sublist ((List.filter_sublist.trans (sliceTo_sublist ..)).map _)
  cases ranked with
  | nil => exact hslice
  | cons best rest =>
    rw [select]
    split
    case isTrue => exact h.sublist (by simp)
    case isFalse => exact hslice

variable [Hashlib] [Numpy R]

/-- A route on a pool that is not empty: the scores, and the selection made of them. -/
theorem route_eq_ok {router : CosineRouter R} {prompt : String} {pool : List (Expert σ)}
    (hnd : (pool.map (·.name)).Nodup) (hne : pool ≠ []) {protos protos' : Prototypes R}
    {names : List String} (h : router.route prompt pool protos = .ok names protos') :
    (∀ e ∈ pool, router.similarity protos prompt e = .ok (router.similarityOf protos prompt e)) ∧
      ∃ missing,
        (missing = true ↔ ∀ n ∈ absoluteFallback pool router.forceLastRole (router.select
            (rank (·.1) (pool.map fun e => (router.similarityOf protos prompt e, e)))),
          n ∉ lastRoleNames pool router.forceLastRole) ∧
        names = capActivation router.maxActivation (moveLastRole pool router.forceLastRole
          (appendLastRole pool router.forceLastRole missing
            (absoluteFallback pool router.forceLastRole (router.select
              (rank (·.1) (pool.map fun e => (router.similarityOf protos prompt e, e))))))) := by
  have hempty : ¬ pool.isEmpty := by simpa using hne
  rw [route, if_neg hempty] at h
  obtain ⟨q, _, hembed, hscore⟩ := bind_eq_ok.mp h
  obtain ⟨hq, rfl⟩ := liftExcept_eq_ok.mp hembed
  obtain ⟨scored, _, hscored, hpure⟩ := bind_eq_ok.mp hscore
  -- Names are distinct, so that a prototype made on the way changes no other expert's score.
  have heq := scored_eq hq hnd hscored
  have hsims := mapM_scoreExpert hq hnd (fun _ _ => rfl) hscored
  rw [pure_apply] at hpure
  cases hpure
  rw [heq] at hsims ⊢
  refine ⟨?sims, _, missing_iff, rfl⟩
  case sims =>
    rw [List.forall₂_map_right_iff, List.forall₂_same] at hsims
    exact fun e he => (hsims e he).2

/-- Whatever the cap, a route keeps to the pool. -/
theorem route_chosen {router : CosineRouter R} {prompt : String} {pool : List (Expert σ)}
    (hnd : (pool.map (·.name)).Nodup) {protos protos' : Prototypes R} {names : List String}
    (h : router.route prompt pool protos = .ok names protos') : Chosen pool names := by
  by_cases hne : pool = []
  · subst hne
    cases h
    exact .nil
  · obtain ⟨-, missing, -, rfl⟩ := route_eq_ok hnd hne h
    exact chosen_finish
      (router.chosen_select ((chosen_scored hnd _).perm ((rank_perm ..).map _))) ..

/-- Every route of the cosine router is proper. -/
theorem route_proper {router : CosineRouter R} (hmax : 1 ≤ router.maxActivation)
    {prompt : String} {pool : List (Expert σ)} (hnd : (pool.map (·.name)).Nodup)
    {protos protos' : Prototypes R} {names : List String}
    (h : router.route prompt pool protos = .ok names protos') :
    Proper pool router.maxActivation names := by
  by_cases hne : pool = []
  · subst hne
    cases h
    exact .nil hmax
  · obtain ⟨-, missing, -, rfl⟩ := route_eq_ok hnd hne h
    exact proper_of_chosen
      (router.chosen_select ((chosen_scored hnd _).perm ((rank_perm ..).map _))) hne hmax ..

/-- A route returns when no similarity raises. -/
theorem route_returns {router : CosineRouter R} {prompt : String} {pool : List (Expert σ)}
    (hnd : (pool.map (·.name)).Nodup) {protos : Prototypes R}
    (hsim : ∀ e ∈ pool, ∃ sim, router.similarity protos prompt e = .ok sim) :
    ∃ names protos', router.route prompt pool protos = .ok names protos' := by
  cases pool with
  | nil => exact ⟨[], protos, rfl⟩
  | cons e rest =>
    cases hq : router.embed prompt with
    | error x =>
      obtain ⟨sim, hsim⟩ := hsim e (List.mem_cons_self ..)
      rw [similarity, hq] at hsim
      cases hsim
    | ok q =>
      obtain ⟨scored, protos', hscored⟩ :=
        mapM_scoreExpert_returns hq hnd (fun _ _ => rfl) hsim
      rw [route, if_neg (by simp), hq, liftExcept_ok, bind_ok (pure_apply q protos),
        bind_ok hscored]
      exact ⟨_, protos', rfl⟩

end CosineRouter

/-! ## The hybrid router -/

namespace HybridRouter

/-- The last slot goes to a name of the role. -/
theorem lastSlot_mem {pool : List (Expert σ)} {role : ExpertRole} {ordered : List String}
    {last : String} (h : lastSlot pool role ordered = some last) :
    last ∈ lastRoleNames pool role := by
  rw [lastSlot] at h
  split at h
  case h_1 n hn =>
    cases h
    simpa using List.find?_some hn
  case h_2 =>
    obtain ⟨e, he, rfl⟩ := Option.map_eq_some_iff.mp h
    exact mem_lastRoleNames.mpr
      ⟨e, List.mem_of_find?_eq_some he, by simpa using List.find?_some he, rfl⟩

/-- A pool that has the role has an expert for the last slot. -/
theorem exists_lastSlot {pool : List (Expert σ)} {role : ExpertRole}
    (hex : ∃ e ∈ pool, e.role = role) (ordered : List String) :
    ∃ last, lastSlot pool role ordered = some last := by
  rw [lastSlot]
  split
  case h_1 n _ => exact ⟨n, rfl⟩
  case h_2 =>
    have hsome : (pool.find? (·.role = role)).isSome := by simpa using hex
    obtain ⟨e, he⟩ := Option.isSome_iff_exists.mp hsome
    exact ⟨e.name, by rw [he]; rfl⟩

/-- A pool without the role has no name for it. -/
theorem lastRoleNames_isEmpty {pool : List (Expert σ)} {role : ExpertRole} :
    (lastRoleNames pool role).isEmpty ↔ ¬ ∃ e ∈ pool, e.role = role := by
  rw [List.isEmpty_iff, lastRoleNames, List.map_eq_nil_iff, List.filter_eq_nil_iff]
  simp

/-- The slots before the last one. -/
def others (router : HybridRouter R) (last : String) (ordered : List String) : List String :=
  if 0 < router.maxActivation then
    sliceTo (ordered.filter (· ≠ last)) (max 0 (router.maxActivation - 1))
  else ordered.filter (· ≠ last)

/-- The two ways in which the slots are filled. -/
theorem fillSlots_cases (router : HybridRouter R) (pool : List (Expert σ))
    (ordered : List String) :
    ((∃ e ∈ pool, e.role = router.forceLastRole) ∧
        ∃ last, lastSlot pool router.forceLastRole ordered = some last ∧
          router.fillSlots pool ordered = router.others last ordered ++ [last]) ∨
      ((¬ ∃ e ∈ pool, e.role = router.forceLastRole) ∧
        router.fillSlots pool ordered = capActivation router.maxActivation ordered) := by
  by_cases hex : ∃ e ∈ pool, e.role = router.forceLastRole
  · obtain ⟨last, hlast⟩ := exists_lastSlot hex ordered
    refine .inl ⟨hex, last, hlast, ?_⟩
    rw [fillSlots, if_neg (by rw [lastRoleNames_isEmpty]; exact not_not.mpr hex), hlast]
    rfl
  · refine .inr ⟨hex, ?_⟩
    rw [fillSlots, if_pos (lastRoleNames_isEmpty.mpr hex)]

/-- The names in front of the last slot keep their order. -/
theorem others_sublist (router : HybridRouter R) (last : String) (ordered : List String) :
    (router.others last ordered).Sublist (ordered.filter (· ≠ last)) := by
  rw [others]
  split
  case isTrue => exact sliceTo_sublist ..
  case isFalse => exact .refl _

/-- Filling the slots from the pool gives a proper selection. -/
theorem fillSlots_proper {router : HybridRouter R} (hmax : 1 ≤ router.maxActivation)
    {pool : List (Expert σ)} (hne : pool ≠ []) {ordered : List String}
    (h : Chosen pool ordered) (hordered : ordered ≠ []) :
    Proper pool router.maxActivation (router.fillSlots pool ordered) := by
  rcases router.fillSlots_cases pool ordered with ⟨-, last, hlast, heq⟩ | ⟨-, heq⟩
  · obtain ⟨e, he, -, rfl⟩ := mem_lastRoleNames.mp (lastSlot_mem hlast)
    have hsub := router.others_sublist e.name ordered
    have hothers := h.sublist (hsub.trans List.filter_sublist)
    have hnew : e.name ∉ router.others e.name ordered :=
      fun hmem => by simpa using (List.mem_filter.mp (hsub.subset hmem)).2
    rw [heq]
    refine ⟨hothers.append_singleton (List.mem_map_of_mem he) hnew, ?cap, ?nil⟩
    case cap =>
      rw [others, if_pos (by omega), sliceTo_of_nonneg _ (le_max_left ..), List.length_append,
        List.length_take]
      simp only [List.length_singleton]
      omega
    case nil => exact iff_of_false (by simp) hne
  · rw [heq]
    exact ⟨h.sublist (capActivation_sublist _), length_capActivation_le (by omega),
      iff_of_false (capActivation_ne_nil hordered) hne⟩

/-- The forced role is last, whatever is in the other slots. -/
theorem fillSlots_endsWith {router : HybridRouter R} {pool : List (Expert σ)}
    (hex : ∃ e ∈ pool, e.role = router.forceLastRole) (ordered : List String) :
    EndsWithRole pool router.forceLastRole (router.fillSlots pool ordered) := by
  rcases router.fillSlots_cases pool ordered with ⟨-, last, hlast, heq⟩ | ⟨hnone, -⟩
  · rw [heq]
    exact ⟨last, by simp, lastSlot_mem hlast⟩
  · exact absurd hex hnone

/-- Two selections that are not both empty make a merged selection that ends with the role. -/
theorem merge_endsWith {router : HybridRouter R} {pool : List (Expert σ)}
    (hex : ∃ e ∈ pool, e.role = router.forceLastRole) (setOrder : SetOrder) {l c : List String}
    (hne : l ≠ [] ∨ c ≠ []) :
    EndsWithRole pool router.forceLastRole (router.merge setOrder pool l c) := by
  rw [merge_eq_fillSlots _ _ _ hne]
  exact fillSlots_endsWith hex _

variable [PyFloat R] [Hashlib] [Numpy R] [Unicode]

/-- A route on proper selections is proper and ends with the role. -/
theorem route_proper {router : HybridRouter R} (hmax : 1 ≤ router.maxActivation)
    (hl : 1 ≤ router.logistic.maxActivation) (hc : 1 ≤ router.cosine.maxActivation)
    {setOrder : SetOrder} {prompt : String} {pool : List (Expert σ)}
    (hnd : (pool.map (·.name)).Nodup) {protos protos' : Prototypes R} {names : List String}
    (h : router.route setOrder prompt pool protos = .ok names protos') :
    Proper pool router.maxActivation names ∧
      ((∃ e ∈ pool, e.role = router.forceLastRole) →
        EndsWithRole pool router.forceLastRole names) := by
  obtain ⟨l, c, hlroute, hcroute, rfl⟩ := route_eq_ok.mp h
  have hlproper := LogisticRouter.route_proper hl hnd hlroute
  have hcproper := CosineRouter.route_proper hc hnd hcroute
  by_cases hne : pool = []
  · have hnil := hlproper.nil_iff.mpr hne
    have hcnil := hcproper.nil_iff.mpr hne
    subst hne hnil hcnil
    rw [merge_nil]
    exact ⟨.nil hmax, by simp⟩
  · have hlne : l ≠ [] := fun hnil => hne (hlproper.nil_iff.mp hnil)
    refine ⟨?_, fun hex => merge_endsWith hex setOrder (.inl hlne)⟩
    rw [merge_eq_fillSlots _ _ _ (.inl hlne)]
    have hperm := order_perm setOrder hlproper.nodup c
    -- Both sub-routes are of the pool, and ordering and filling keep that.
    have hordered : Chosen pool (order l (setOrder.list (l ++ c))) := by
      refine ⟨hperm.nodup_iff.mpr (List.nodup_dedup _), fun n hn => ?_⟩
      rcases List.mem_append.mp (List.mem_dedup.mp (hperm.mem_iff.mp hn)) with hn | hn
      · exact hlproper.mem n hn
      · exact hcproper.mem n hn
    refine fillSlots_proper hmax hne hordered ?_
    intro hnil
    obtain ⟨n, hn⟩ := List.exists_mem_of_ne_nil _ hlne
    have hmem := hperm.mem_iff.mpr (List.mem_dedup.mpr (List.mem_append_left c hn))
    rw [hnil] at hmem
    cases hmem

end HybridRouter

/-! ## All routers -/

/-- A router object. The hybrid router comes with its cosine router's prototypes, and with the
order in which the run enumerates sets. -/
inductive RouterObject (R : Type) where
  | single (router : AnyRouter R)
  | hybrid (router : HybridRouter R) (prototypes : Prototypes R) (setOrder : SetOrder)

namespace RouterObject

/-- `max_activation`. -/
def maxActivation : RouterObject R → ℤ
  | single router => router.maxActivation
  | hybrid router _ _ => router.maxActivation

/-- `max_activation` is at least one, on the sub-routers as well. -/
def Capped : RouterObject R → Prop
  | single router => 1 ≤ router.maxActivation
  | hybrid router _ _ =>
    1 ≤ router.maxActivation ∧ 1 ≤ router.logistic.maxActivation ∧
      1 ≤ router.cosine.maxActivation

variable [PyFloat R] [Hashlib] [Numpy R] [Unicode]

/-- `route`. -/
def route (r : RouterObject R) (prompt : String) (pool : List (Expert σ)) :
    Except Exn (List String) :=
  match r with
  | single router => router.route prompt pool
  | hybrid router protos setOrder => outcome (router.route setOrder prompt pool protos)

/-- The scores and the similarities of the prompt are numbers: nothing raises. -/
def Scorable (r : RouterObject R) (prompt : String) (pool : List (Expert σ)) : Prop :=
  let scores (router : LogisticRouter R) : Prop := ∃ scores, router.score prompt = .ok scores
  let similarities (router : CosineRouter R) (protos : Prototypes R) : Prop :=
    ∀ e ∈ pool, ∃ sim, router.similarity protos prompt e = .ok sim
  match r with
  | single (.logistic router) => scores router
  | single (.cosine router protos) => similarities router protos
  | hybrid router protos _ => scores router.logistic ∧ similarities router.cosine protos

/-- Every router returns distinct names of the pool, within its cap, and none only for the empty
pool; the hybrid router ends with the forced role, whatever the two selections are. -/
theorem selection_proper (r : RouterObject R) (hcap : r.Capped) (prompt : String)
    (pool : List (Expert σ)) (hnd : (pool.map (·.name)).Nodup) :
    (r.Scorable prompt pool → ∃ names, r.route prompt pool = .ok names) ∧
      (∀ names, r.route prompt pool = .ok names → Proper pool r.maxActivation names) ∧
      ∀ router protos setOrder, r = hybrid router protos setOrder →
        (∃ e ∈ pool, e.role = router.forceLastRole) →
          (∀ names, r.route prompt pool = .ok names →
            EndsWithRole pool router.forceLastRole names) ∧
          ∀ l c, l ≠ [] ∨ c ≠ [] →
            EndsWithRole pool router.forceLastRole (router.merge setOrder pool l c) := by
  cases r with
  | single router =>
    refine ⟨?returns, ?proper, fun _ _ _ h => by cases h⟩
    case returns =>
      cases router with
      | logistic router => exact fun ⟨_, hscores⟩ => router.route_returns hscores pool
      | cosine router protos =>
        intro hsim
        obtain ⟨names, protos', h⟩ := router.route_returns hnd hsim
        exact ⟨names, congrArg outcome h⟩
    case proper =>
      intro names h
      cases router with
      | logistic router => exact router.route_proper hcap hnd h
      | cosine router protos => exact router.route_proper hcap hnd (eq_ok_of_outcome h)
  | hybrid router protos setOrder =>
    obtain ⟨hmax, hl, hc⟩ := hcap
    have hroute : ∀ names, (hybrid router protos setOrder).route prompt pool = .ok names → _ :=
      fun names h => router.route_proper hmax hl hc hnd (eq_ok_of_outcome h)
    refine ⟨?returns, fun names h => (hroute names h).1, ?last⟩
    case returns =>
      rintro ⟨⟨scores, hscores⟩, hsim⟩
      obtain ⟨l, hlroute⟩ := router.logistic.route_returns hscores pool
      obtain ⟨c, protos', hcroute⟩ := router.cosine.route_returns hnd hsim
      exact ⟨_, congrArg outcome (HybridRouter.route_eq_ok.mpr ⟨l, c, hlroute, hcroute, rfl⟩)⟩
    case last =>
      rintro _ _ _ ⟨⟩ hex
      exact ⟨fun names h => (hroute names h).2 hex,
        fun l c hne => HybridRouter.merge_endsWith hex setOrder hne⟩

end RouterObject

/-- A hybrid router with a single slot. -/
def narrowHybrid : HybridRouter ℚ where
  logistic := evenLogistic 1
  cosine := analystCosine 1
  alpha := 6 / 10
  maxActivation := 1

/-- A pool of two experts. -/
theorem RouterObject.selection_proper_duo :
    letI := PyFloat.rat
    letI := Numpy.rat
    letI := Unicode.ascii
    letI := Hashlib.zeros
    (hybrid narrowHybrid analystPrototypes .insertion).route "p" analystFirst = .ok ["b"] ∧
      Proper analystFirst 1 ["b"] := by
  let _ := PyFloat.rat
  let _ := Numpy.rat
  let _ := Unicode.ascii
  let _ := Hashlib.zeros
  have hroute : (hybrid narrowHybrid analystPrototypes .insertion).route "p" analystFirst =
      .ok ["b"] := by
    decide +kernel
  have hproper := selection_proper (hybrid narrowHybrid analystPrototypes .insertion)
    ⟨by decide, by decide, by decide⟩ "p" analystFirst (by decide)
  exact ⟨hroute, hproper.2.1 ["b"] hroute⟩

end Chen
