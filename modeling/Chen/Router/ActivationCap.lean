import Chen.Router.Proper

/-!
# The activation cap of the routers that `from_experts` builds

The logistic and the cosine router keep the cap they are built with. The hybrid router drops the
argument and caps at three, so it exceeds a smaller cap as soon as more experts than that are
eligible.
-/

namespace Chen

open Effect Ranking
open PyFloat (lit)

variable {σ R : Type}

/-! ## Eligible experts -/

/-- The contenders for a selection, completed as a route completes it: by the fallback if there is
none, and by the forced role if they lack it. -/
def completed (pool : List (Expert σ)) (role : ExpertRole) (contenders : List String) :
    List String :=
  let selected := absoluteFallback pool role contenders
  appendLastRole pool role (!selected.any (lastRoleNames pool role).contains) selected

section Completed

variable {pool : List (Expert σ)} {role : ExpertRole} {contenders : List String}

/-- Completing a choice chooses from the pool. -/
theorem Chosen.completed (h : Chosen pool contenders) (role : ExpertRole) :
    Chosen pool (completed pool role contenders) :=
  (h.absoluteFallback role).appendLastRole role _

/-- The forced role is eligible. -/
theorem exists_role_mem_completed (hex : ∃ e ∈ pool, e.role = role) (contenders : List String) :
    ∃ n ∈ completed pool role contenders, n ∈ lastRoleNames pool role := by
  rw [completed]
  by_cases h : ∃ n ∈ absoluteFallback pool role contenders, n ∈ lastRoleNames pool role
  · obtain ⟨n, hn, hrole⟩ := h
    exact ⟨n, subset_appendLastRole pool role _ _ hn, hrole⟩
  · have hmissing : (!(absoluteFallback pool role contenders).any
        (lastRoleNames pool role).contains) = true := by simpa using h
    obtain ⟨last, hlast, happend⟩ := appendLastRole_missing hex (by simpa using h)
    exact ⟨last, by simp [hmissing, happend], hlast⟩

/-- A selection of at most `m` of the eligible experts: of all of them, if there is a place for
each. -/
structure Selects (m : ℕ) (eligible names : List String) : Prop where
  nodup : names.Nodup
  subset : names ⊆ eligible
  length : names.length = min m eligible.length

/-- With a place for each, the selection has all of them. -/
theorem Selects.perm {m : ℕ} {eligible names : List String} (h : Selects m eligible names)
    (hle : names.length < m) : names.Perm eligible := by
  have hlen := h.length
  exact (List.subperm_of_subset h.nodup h.subset).perm_of_length_le (by omega)

/-- The two routers look for the forced role alike. -/
theorem missing_eq {selected : List String} {missing : Bool}
    (h : missing = true ↔ ∀ n ∈ selected, n ∉ lastRoleNames pool role) :
    missing = !selected.any (lastRoleNames pool role).contains := by
  rw [Bool.eq_iff_iff, h]
  simp

/-- Contenders are eligible. -/
theorem subset_completed (pool : List (Expert σ)) (role : ExpertRole) (hne : contenders ≠ []) :
    contenders ⊆ completed pool role contenders := by
  rw [completed, absoluteFallback_of_ne_nil pool role hne]
  exact subset_appendLastRole ..

/-- The first `m` contenders, completed and capped again, are a selection of the eligible ones. -/
theorem selects_of_take {m : ℕ} (hm : 1 ≤ m) (h : Chosen pool contenders) {missing : Bool}
    (hmissing : missing = true ↔
      ∀ n ∈ absoluteFallback pool role (contenders.take m), n ∉ lastRoleNames pool role) :
    Selects m (completed pool role contenders) (capActivation m (moveLastRole pool role
      (appendLastRole pool role missing (absoluteFallback pool role (contenders.take m))))) := by
  have htake := h.sublist (contenders.take_sublist m)
  have hchosen := htake.completed role
  have hperm := moveLastRole_perm pool role hchosen.nodup
  have hcomplete : appendLastRole pool role missing
      (absoluteFallback pool role (contenders.take m)) =
        completed pool role (contenders.take m) := by
    rw [completed, missing_eq hmissing]
  have hcap : ∀ names : List String, capActivation m names = names.take m := by
    intro names
    rw [capActivation, if_pos (by omega), sliceTo_natCast]
  rw [hcomplete, hcap]
  have hnodup := (hperm.nodup_iff.mpr hchosen.nodup).sublist (List.take_sublist m _)
  rcases Nat.lt_or_ge m contenders.length with hlt | hle
  · -- the contenders fill every place
    have hlen : (contenders.take m).length = m := by
      rw [List.length_take]
      omega
    have hne : contenders ≠ [] := List.ne_nil_of_length_pos (by omega)
    have htake_ne : contenders.take m ≠ [] := List.ne_nil_of_length_pos (by omega)
    refine ⟨hnodup, ?subset, ?length⟩
    case subset =>
      refine List.Subset.trans ?_
        (List.Subset.trans (List.take_subset m _) (subset_completed pool role hne))
      rw [completed, absoluteFallback_of_ne_nil pool role htake_ne]
      have hsub : (moveLastRole pool role (appendLastRole pool role
          (!(contenders.take m).any (lastRoleNames pool role).contains)
          (contenders.take m))).take (contenders.take m).length ⊆ contenders.take m :=
        take_moveLastRole_subset htake.nodup (by simp)
      rwa [hlen] at hsub
    case length =>
      have hall := (List.subperm_of_subset h.nodup (subset_completed pool role hne)).length_le
      have hfirst :=
        (List.subperm_of_subset htake.nodup (subset_completed pool role htake_ne)).length_le
      rw [List.length_take, hperm.length_eq]
      omega
  · -- nothing is cut off
    rw [List.take_of_length_le hle] at hnodup hperm ⊢
    exact ⟨hnodup, fun n hn => hperm.mem_iff.mp (List.mem_of_mem_take hn),
      by rw [List.length_take, hperm.length_eq]⟩

end Completed

/-! ## The two single routers -/

namespace LogisticRouter

variable [PyFloat R]

/-- The best experts of their roles that reach the threshold, completed. -/
def eligible (router : LogisticRouter R) (scores : Dict String R) (pool : List (Expert σ)) :
    List String :=
  completed pool router.forceLastRole ((router.ranked scores pool).map (·.2.name))

omit [PyFloat R] in
/-- A minimum of one selects nothing that the places do not hold. -/
theorem select_eq_take {router : LogisticRouter R} {m : ℕ} (hm : 1 ≤ m)
    (hmax : router.maxActivation = m) (hmin : router.minActivation = 1)
    (ranked : List (R × Expert σ)) :
    router.select ranked = (ranked.map (·.2.name)).take m := by
  cases ranked with
  | nil => simp [select, hmax, sliceTo_natCast]
  | cons best rest =>
    rw [select, hmax, hmin, sliceTo_natCast, if_neg, List.map_take]
    simp only [List.length_map, List.length_take, List.length_cons]
    omega

variable [Unicode]

/-- A route selects eligible experts, as many as the cap allows. -/
theorem route_selects {router : LogisticRouter R} {m : ℕ} (hm : 1 ≤ m)
    (hmax : router.maxActivation = m) (hmin : router.minActivation = 1) {prompt : String}
    {pool : List (Expert σ)} (hnd : (pool.map (·.name)).Nodup) (hne : pool ≠ [])
    {names : List String} (h : router.route prompt pool = .ok names) :
    ∃ scores, router.score prompt = .ok scores ∧ Selects m (router.eligible scores pool) names := by
  rw [route, if_neg (by simpa using hne)] at h
  cases hscores : router.score prompt with
  | error x =>
    rw [hscores] at h
    cases h
  | ok scores =>
    rw [hscores] at h
    cases h
    refine ⟨scores, rfl, ?_⟩
    rw [hmax, select_eq_take hm hmax hmin]
    refine selects_of_take hm (router.chosen_ranked scores hnd) ?_
    simp [expertRoleName_eq_value hnd]

end LogisticRouter

namespace CosineRouter

variable [PyFloat R]

/-- The experts that reach the threshold, or the best one if none does. -/
def contenders (router : CosineRouter R) (ranked : List (R × Expert σ)) : List String :=
  let names := (ranked.filter (router.threshold ≤ ·.1)).map (·.2.name)
  if names.isEmpty then (ranked.head?.map (·.2.name)).toList else names

/-- The contenders by their similarities, completed. -/
def eligible (router : CosineRouter R) (sim : Expert σ → R) (pool : List (Expert σ)) :
    List String :=
  completed pool router.forceLastRole
    (router.contenders (rank (·.1) (pool.map fun e => (sim e, e))))

/-- The contenders are chosen from the pool. -/
theorem chosen_contenders (router : CosineRouter R) {pool : List (Expert σ)}
    {ranked : List (R × Expert σ)} (h : Chosen pool (ranked.map (·.2.name))) :
    Chosen pool (router.contenders ranked) := by
  rw [contenders]
  split
  case isTrue =>
    cases ranked with
    | nil => exact .nil
    | cons best rest => exact h.sublist (by simp)
  case isFalse => exact h.sublist (List.filter_sublist.map _)

/-- A minimum of one selects the contenders that the places hold. -/
theorem select_eq_take {router : CosineRouter R} {m : ℕ} (hm : 1 ≤ m)
    (hmax : router.maxActivation = m) (hmin : router.minActivation = 1)
    {ranked : List (R × Expert σ)} (hdesc : ranked.Pairwise fun x y => y.1 ≤ x.1) :
    router.select ranked = (router.contenders ranked).take m := by
  have hprefix : ranked.Pairwise fun x y =>
      decide (router.threshold ≤ y.1) = true → decide (router.threshold ≤ x.1) = true :=
    hdesc.imp fun hle h => decide_eq_true ((of_decide_eq_true h).trans hle)
  cases ranked with
  | nil => simp [select, contenders, hmax, sliceTo_natCast]
  | cons best rest =>
    rw [select, contenders, hmax, hmin, sliceTo_natCast, filter_take_of_prefix hprefix]
    generalize (best :: rest).filter (router.threshold ≤ ·.1) = passed
    cases passed with
    | nil =>
      obtain ⟨k, rfl⟩ : ∃ k, m = k + 1 := ⟨m - 1, by omega⟩
      simp
    | cons first passed =>
      rw [if_neg, List.map_take, if_neg (by simp)]
      simp only [List.length_map, List.length_take, List.length_cons]
      omega

/-- Who is eligible depends on the similarities of the pool alone. -/
theorem eligible_congr (router : CosineRouter R) {sim sim' : Expert σ → R}
    {pool : List (Expert σ)} (h : ∀ e ∈ pool, sim e = sim' e) :
    router.eligible sim pool = router.eligible sim' pool := by
  have hmap : (pool.map fun e => (sim e, e)) = pool.map fun e => (sim' e, e) :=
    List.map_congr_left fun e he => by rw [h e he]
  rw [eligible, eligible, hmap]

variable [Hashlib] [Numpy R]

/-- A route selects eligible experts, as many as the cap allows. -/
theorem route_selects {router : CosineRouter R} {m : ℕ} (hm : 1 ≤ m)
    (hmax : router.maxActivation = m) (hmin : router.minActivation = 1) {prompt : String}
    {pool : List (Expert σ)} (hnd : (pool.map (·.name)).Nodup) (hne : pool ≠ [])
    {protos protos' : Prototypes R} {names : List String}
    (h : router.route prompt pool protos = .ok names protos') :
    (∀ e ∈ pool, router.similarity protos prompt e = .ok (router.similarityOf protos prompt e)) ∧
      Selects m (router.eligible (router.similarityOf protos prompt) pool) names := by
  obtain ⟨hsims, missing, hmissing, rfl⟩ := route_eq_ok hnd hne h
  refine ⟨hsims, ?_⟩
  rw [select_eq_take hm hmax hmin (rank_desc ..)] at hmissing ⊢
  rw [hmax]
  refine selects_of_take hm (router.chosen_contenders ?_) hmissing
  exact (chosen_scored hnd _).perm ((rank_perm ..).map _)

/-- What `from_experts` builds, whatever prototypes it registers. -/
theorem fromExperts_eq_ok {experts : List (Expert σ)} {samples : Dict String (List String)}
    {minActivation maxActivation : ℤ} {role : ExpertRole} {threshold : R} {embedDim : ℤ}
    {embedFn : Option (String → Except Exn (List R))} {protos protos' : Prototypes R}
    {router : CosineRouter R}
    (h : fromExperts experts samples minActivation maxActivation role threshold embedDim embedFn
      protos = .ok router protos') :
    router = create minActivation maxActivation role threshold embedDim embedFn := by
  obtain ⟨_, _, -, hpure⟩ := bind_eq_ok.mp h
  cases hpure
  rfl

end CosineRouter

/-! ## The hybrid router -/

namespace HybridRouter

/-- The last slot goes to one of the names at hand, if one has the role. -/
theorem lastSlot_mem_ordered {pool : List (Expert σ)} {role : ExpertRole} {ordered : List String}
    (hex : ∃ n ∈ ordered, n ∈ lastRoleNames pool role) {last : String}
    (h : lastSlot pool role ordered = some last) : last ∈ ordered := by
  rw [lastSlot] at h
  split at h
  case h_1 n hn =>
    cases h
    exact List.mem_of_find?_eq_some hn
  case h_2 hnone =>
    obtain ⟨n, hn, hrole⟩ := hex
    exact absurd hrole (by simpa using List.find?_eq_none.mp hnone n hn)

/-- The slots are all filled, as far as there are names. The forced role takes the slot of a name
only when it is one of them or there is none to spare. -/
theorem length_fillSlots {router : HybridRouter R} {m : ℕ} (hm : 1 ≤ m)
    (hmax : router.maxActivation = m) {pool : List (Expert σ)} {ordered : List String}
    (hnd : ordered.Nodup)
    (hrole : (∃ e ∈ pool, e.role = router.forceLastRole) →
      (∃ n ∈ ordered, n ∈ lastRoleNames pool router.forceLastRole) ∨ m ≤ ordered.length) :
    (router.fillSlots pool ordered).length = min m ordered.length := by
  rcases router.fillSlots_cases pool ordered with ⟨hex, last, hlast, heq⟩ | ⟨-, heq⟩
  · have hothers : (router.others last ordered).length =
        min (m - 1) (ordered.filter (· ≠ last)).length := by
      have hslots : (max 0 ((m : ℤ) - 1)).toNat = m - 1 := by omega
      rw [others, hmax, if_pos (by omega), sliceTo_of_nonneg _ (le_max_left ..), hslots,
        List.length_take]
    rw [heq, List.length_append, hothers, List.length_singleton]
    by_cases hmem : last ∈ ordered
    · have hless := length_filter_ne hnd hmem
      omega
    · have hfull : m ≤ ordered.length :=
        (hrole hex).resolve_left fun h => hmem (lastSlot_mem_ordered h hlast)
      rw [filter_ne_of_notMem hmem]
      omega
  · rw [heq, hmax, capActivation, if_pos (by omega), sliceTo_natCast, List.length_take]

/-- A cap on the names that two selections have together. Selections under a higher cap keep it
exactly when the eligible experts do. -/
theorem length_dedup_le_iff {k m : ℕ} (hmk : m < k) {l c eligible eligible' : List String}
    (hl : Selects k eligible l) (hc : Selects k eligible' c) :
    (l ++ c).dedup.length ≤ m ↔ (eligible ++ eligible').dedup.length ≤ m := by
  have hpart : ∀ {xs ys : List String}, xs.Nodup → xs ⊆ ys → xs.length ≤ ys.dedup.length :=
    fun hnd hsub => (List.subperm_of_subset hnd fun n hn =>
      List.mem_dedup.mpr (hsub hn)).length_le
  constructor
  · intro h
    have hlen : l.length ≤ (l ++ c).dedup.length := hpart hl.nodup (List.subset_append_left ..)
    have hlen' : c.length ≤ (l ++ c).dedup.length := hpart hc.nodup (List.subset_append_right ..)
    have hperm := (hl.perm (by omega)).append (hc.perm (by omega))
    rwa [hperm.dedup.length_eq] at h
  · intro h
    refine le_trans (List.subperm_of_subset (List.nodup_dedup _) ?_).length_le h
    intro n hn
    rw [List.mem_dedup, List.mem_append] at hn ⊢
    exact hn.imp (fun hn => hl.subset hn) fun hn => hc.subset hn

variable [PyFloat R]

/-- The experts that are eligible by the scores of the one router or the similarities of the
other. -/
def eligible (router : HybridRouter R) (scores : Dict String R) (sim : Expert σ → R)
    (pool : List (Expert σ)) : List String :=
  (router.logistic.eligible scores pool ++ router.cosine.eligible sim pool).dedup

variable [Hashlib] [Numpy R]

/-- What `from_experts` builds, whatever the arguments that it drops. -/
theorem fromExperts_eq_ok {experts : List (Expert σ)} {alpha : R} {minActivation maxActivation : ℤ}
    {role : ExpertRole} {protos protos' : Prototypes R} {router : HybridRouter R}
    (h : fromExperts experts alpha minActivation maxActivation role protos = .ok router protos') :
    router = create .create .create alpha := by
  obtain ⟨cosine, _, hcosine, hpure⟩ := bind_eq_ok.mp h
  obtain rfl := CosineRouter.fromExperts_eq_ok hcosine
  cases hpure
  rfl

variable [Unicode]

/-- A route with caps of three all over returns as many names as are eligible, up to three. -/
theorem length_route_le_iff {router : HybridRouter R} (hmax : router.maxActivation = (3 : ℕ))
    (hlmax : router.logistic.maxActivation = (3 : ℕ)) (hlmin : router.logistic.minActivation = 1)
    (hcmax : router.cosine.maxActivation = (3 : ℕ)) (hcmin : router.cosine.minActivation = 1)
    (hlrole : router.logistic.forceLastRole = router.forceLastRole) {setOrder : SetOrder}
    {prompt : String} {pool : List (Expert σ)} (hnd : (pool.map (·.name)).Nodup) (hne : pool ≠ [])
    {protos protos' : Prototypes R} {names : List String}
    (h : router.route setOrder prompt pool protos = .ok names protos') :
    ∃ scores sim, router.logistic.score prompt = .ok scores ∧
      (∀ e ∈ pool, router.cosine.similarity protos prompt e = .ok (sim e)) ∧
      ∀ m : ℕ, names.length ≤ m ↔ 3 ≤ m ∨ (router.eligible scores sim pool).length ≤ m := by
  obtain ⟨l, c, hlroute, hcroute, rfl⟩ := route_eq_ok.mp h
  obtain ⟨scores, hscores, hl⟩ :=
    LogisticRouter.route_selects (by omega) hlmax hlmin hnd hne hlroute
  obtain ⟨hsims, hc⟩ := CosineRouter.route_selects (by omega) hcmax hcmin hnd hne hcroute
  refine ⟨scores, _, hscores, hsims, fun m => ?_⟩
  have hlproper := LogisticRouter.route_proper (by omega) hnd hlroute
  have hlne : l ≠ [] := fun hnil => hne (hlproper.nil_iff.mp hnil)
  have hperm := order_perm setOrder hlproper.nodup c
  have hlen : (router.fillSlots pool (order l (setOrder.list (l ++ c)))).length =
      min 3 (l ++ c).dedup.length := by
    rw [← hperm.length_eq]
    refine length_fillSlots (by omega) hmax (hperm.nodup_iff.mpr (List.nodup_dedup _)) ?_
    intro hex
    by_cases hlt : l.length < 3
    · -- the logistic router has a place for every eligible expert, so for the forced role
      obtain ⟨n, hn, hrole⟩ := exists_role_mem_completed (hlrole.symm ▸ hex)
        ((router.logistic.ranked scores pool).map (·.2.name))
      have hnl : n ∈ l := (hl.perm hlt).mem_iff.mpr hn
      exact .inl ⟨n, hperm.mem_iff.mpr (List.mem_dedup.mpr (List.mem_append_left c hnl)),
        hlrole ▸ hrole⟩
    · have hpart : l ⊆ order l (setOrder.list (l ++ c)) :=
        fun n hn => hperm.mem_iff.mpr (List.mem_dedup.mpr (List.mem_append_left c hn))
      have hle := (List.subperm_of_subset hlproper.nodup hpart).length_le
      exact .inr (by omega)
  rw [merge_eq_fillSlots _ _ _ (.inl hlne), hlen, min_le_iff]
  refine or_congr_right' fun hm => ?_
  exact length_dedup_le_iff (by omega) hl hc

end HybridRouter

/-! ## All routers -/

/-- The router classes. -/
inductive RouterClass where
  | logistic
  | cosine
  | hybrid
deriving DecidableEq

section Built

variable [PyFloat R] [Hashlib] [Numpy R] [Unicode]

/-- `cls.from_experts(pool, max_activation=m).route(prompt, pool)`. -/
def RouterClass.routeBuilt (R : Type) [PyFloat R] [Numpy R] (cls : RouterClass)
    (setOrder : SetOrder) (pool : List (Expert σ)) (m : ℤ) (prompt : String) :
    Except Exn (List String) :=
  let protos : Prototypes R := []
  match cls with
  | .logistic =>
    let router : LogisticRouter R := .fromExperts pool 1 m
    router.route prompt pool
  | .cosine => outcome <| (do
    let router ← CosineRouter.fromExperts pool [] 1 m
    router.route prompt pool) protos
  | .hybrid => outcome <| (do
    let router ← HybridRouter.fromExperts pool (lit (6 / 10)) 1 m
    router.route setOrder prompt pool) protos

/-- At most `m` experts are eligible for the prompt, where nothing raises, by the default routers:
the best expert of each role whose score is at least 0.15, every expert whose similarity is at
least 0.1 (the most similar one, if there is none), and the synthesizer that is added to either. -/
def FewEligible (R : Type) [PyFloat R] [Numpy R] (pool : List (Expert σ)) (m : ℤ)
    (prompt : String) : Prop :=
  ∀ (router : HybridRouter R) (protos : Prototypes R) (scores : Dict String R)
    (sim : Expert σ → R), HybridRouter.fromExperts pool (lit (6 / 10)) 1 3 .synthesizer [] =
        .ok router protos →
    router.logistic.score prompt = .ok scores →
    (∀ e ∈ pool, router.cosine.similarity protos prompt e = .ok (sim e)) →
    ((router.eligible scores sim pool).length : ℤ) ≤ m

omit [Hashlib] [Numpy R] [Unicode] in
/-- Who is eligible depends on the similarities of the pool alone. -/
theorem HybridRouter.eligible_congr (router : HybridRouter R) (scores : Dict String R)
    {sim sim' : Expert σ → R} {pool : List (Expert σ)} (h : ∀ e ∈ pool, sim e = sim' e) :
    router.eligible scores sim pool = router.eligible scores sim' pool := by
  rw [eligible, eligible, router.cosine.eligible_congr h]

/-- A route of the hybrid router that `from_experts` builds returns at most `m` names exactly when
`m` is at least three or no more experts than that are eligible. -/
theorem HybridRouter.length_built_le_iff {router : HybridRouter R} {setOrder : SetOrder}
    {prompt : String} {pool : List (Expert σ)} (hnd : (pool.map (·.name)).Nodup)
    {protos protos' : Prototypes R} {scores : Dict String R} {sim : Expert σ → R}
    (hbuild : HybridRouter.fromExperts pool (lit (6 / 10)) 1 3 .synthesizer [] =
      .ok router protos)
    (hscores : router.logistic.score prompt = .ok scores)
    (hsim : ∀ e ∈ pool, router.cosine.similarity protos prompt e = .ok (sim e))
    {names : List String} (h : router.route setOrder prompt pool protos = .ok names protos')
    (m : ℕ) : names.length ≤ m ↔ 3 ≤ m ∨ (router.eligible scores sim pool).length ≤ m := by
  obtain rfl := fromExperts_eq_ok hbuild
  by_cases hne : pool = []
  · subst hne
    cases (route_empty _ setOrder prompt protos).symm.trans h
    exact iff_of_true (by simp) (.inr (by
      simp [eligible, LogisticRouter.eligible, CosineRouter.eligible, completed, absoluteFallback,
        appendLastRole, LogisticRouter.ranked, LogisticRouter.roleBest, CosineRouter.contenders,
        rank]))
  · obtain ⟨scores', sim', hscores', hsim', hiff⟩ :=
      length_route_le_iff rfl rfl rfl rfl rfl rfl hnd hne h
    cases hscores.symm.trans hscores'
    have hcongr : ∀ e ∈ pool, sim e = sim' e := fun e he => by
      exact Except.ok.inj ((hsim e he).symm.trans (hsim' e he))
    rw [hiff, eligible_congr _ _ hcongr]

/-- The cap holds for the logistic and the cosine router. For the hybrid router it holds exactly
when it is at least three, or no more experts than that are eligible. -/
theorem RouterClass.cap_held_iff (cls : RouterClass) (setOrder : SetOrder)
    (pool : List (Expert σ)) (hnd : (pool.map (·.name)).Nodup) (m : ℤ) (hm : 1 ≤ m)
    (prompt : String) :
    (∀ names, cls.routeBuilt R setOrder pool m prompt = .ok names → (names.length : ℤ) ≤ m) ↔
      (cls = .hybrid → 3 ≤ m ∨ FewEligible R pool m prompt) := by
  cases cls with
  | logistic =>
    refine iff_of_true ?_ nofun
    intro names h
    exact (LogisticRouter.route_proper hm hnd h).length_le_max
  | cosine =>
    refine iff_of_true ?_ nofun
    intro names h
    obtain ⟨router, protos, hbuild, hroute⟩ := bind_eq_ok.mp (eq_ok_of_outcome h)
    obtain rfl := CosineRouter.fromExperts_eq_ok hbuild
    exact (CosineRouter.route_proper hm hnd hroute).length_le_max
  | hybrid =>
    obtain ⟨k, rfl⟩ : ∃ k : ℕ, m = k := ⟨m.toNat, by omega⟩
    constructor
    · intro hall _
      rw [or_iff_not_imp_left]
      intro hsmall router protos scores sim hbuild hscores hsim
      obtain ⟨l, hl⟩ := router.logistic.route_returns hscores pool
      obtain ⟨c, protos', hc⟩ := router.cosine.route_returns hnd fun e he => ⟨_, hsim e he⟩
      have hroute := HybridRouter.route_eq_ok.mpr
        ⟨l, c, hl, hc, (rfl : router.merge setOrder pool l c = _)⟩
      have hle := hall _ (congrArg outcome (bind_eq_ok.mpr ⟨router, protos, hbuild, hroute⟩))
      have hiff := HybridRouter.length_built_le_iff hnd hbuild hscores hsim hroute k
      omega
    · intro hcond names h
      obtain ⟨router, protos, hbuild, hroute⟩ := bind_eq_ok.mp (eq_ok_of_outcome h)
      have hrouter := HybridRouter.fromExperts_eq_ok hbuild
      by_cases hne : pool = []
      · subst hne
        cases (router.route_empty setOrder prompt protos).symm.trans hroute
        simp
      · obtain ⟨scores, sim, hscores, hsim, hiff⟩ : ∃ scores sim,
            router.logistic.score prompt = .ok scores ∧
            (∀ e ∈ pool, router.cosine.similarity protos prompt e = .ok (sim e)) ∧
            ∀ m : ℕ, names.length ≤ m ↔
              3 ≤ m ∨ (router.eligible scores sim pool).length ≤ m := by
          subst hrouter
          exact HybridRouter.length_route_le_iff rfl rfl rfl rfl rfl rfl hnd hne hroute
        have hle : 3 ≤ k ∨ (router.eligible scores sim pool).length ≤ k := by
          rcases hcond rfl with hle | hfew
          · exact .inl (by omega)
          · have := hfew router protos scores sim hbuild hscores hsim
            exact .inr (by omega)
        have := (hiff k).mpr hle
        omega

end Built

/-- Two experts of the role `router`, for which the logistic router has no weights. -/
def routers : List (Expert Unit) :=
  [⟨"a", .router, Script.backend {}, ""⟩, ⟨"b", .router, Script.backend {}, ""⟩]

/-- Digests without a zero. -/
@[reducible] def Hashlib.ones : Hashlib where
  blake2b _ _ digestSize := List.replicate digestSize 0xff
  sha256 _ := List.replicate 32 0xff

/-- A router of each class that keeps its cap. -/
theorem RouterClass.cap_held_routers :
    letI := PyFloat.rat
    letI := Numpy.rat
    letI := Unicode.ascii
    letI := Hashlib.ones
    hybrid.routeBuilt ℚ .insertion routers 3 "router" = .ok ["a", "b"] ∧
      (["a", "b"].length : ℤ) ≤ 3 := by
  let _ := PyFloat.rat
  let _ := Numpy.rat
  let _ := Unicode.ascii
  let _ := Hashlib.ones
  have hroute : hybrid.routeBuilt ℚ .insertion routers 3 "router" = .ok ["a", "b"] := by
    decide +kernel
  exact ⟨hroute, (cap_held_iff .hybrid .insertion routers (by decide) 3 (by decide) "router").mpr
    (fun _ => .inl le_rfl) _ hroute⟩

/-- Built with a cap of one, the hybrid router returns the logistic router's fallback and both
experts that are similar to the prompt. -/
theorem RouterClass.cap_exceeded :
    letI := PyFloat.rat
    letI := Numpy.rat
    letI := Unicode.ascii
    letI := Hashlib.ones
    (routers.map (·.name)).Nodup ∧
      hybrid.routeBuilt ℚ .insertion routers 1 "router" = .ok ["a", "b"] ∧
      ¬ (["a", "b"].length : ℤ) ≤ 1 :=
  ⟨by decide, by decide +kernel, by decide⟩

end Chen
