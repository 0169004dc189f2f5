import Chen.Router.Cosine
import Chen.Router.Logistic
import Chen.Phases.Runs

/-!
# When a selection ends with the forced role

The routers append the forced role to a selection that lacks it, and cap the result afterwards. The
forced role is lost when the other candidates fill every place.
-/

namespace Chen

open PyFloat (lit)
open Effect Ranking

variable {σ R : Type} [PyFloat R]

/-! ## The logistic router -/

namespace LogisticRouter

/-- The score of an expert for a prompt; where `_score` raises, so does `route`. -/
def scoreOf [Unicode] (router : LogisticRouter R) (prompt : String) (e : Expert σ) : R :=
  match router.score prompt with
  | .ok scores => expertScore scores e
  | .error _ => lit 0

/-- Some expert of role `r` reaches the threshold and outranks every expert of the forced role
that does: by its score, or as the role that occurs first in the pool. -/
def Crowds [Unicode] (router : LogisticRouter R) (prompt : String) (pool : List (Expert σ))
    (r : ExpertRole) : Prop :=
  ∃ e ∈ pool, e.role = r ∧ router.threshold ≤ router.scoreOf prompt e ∧
    ∀ f ∈ pool, f.role = router.forceLastRole → router.threshold ≤ router.scoreOf prompt f →
      Outranks (router.scoreOf prompt) (fun e f => Earlier (pool.map (·.role)) e.role f.role) e f

instance [Unicode] (router : LogisticRouter R) (prompt : String) (pool : List (Expert σ)) :
    DecidablePred (router.Crowds prompt pool) :=
  fun _ => inferInstanceAs (Decidable (∃ e ∈ pool, _))

/-- The number of roles that are ahead of the forced one. -/
def crowd [Unicode] (router : LogisticRouter R) (prompt : String) (pool : List (Expert σ)) : ℕ :=
  (pool.map (·.role)).dedup.countP (router.Crowds prompt pool)

omit [PyFloat R] in
/-- A selection has the forced role or a place left for it, unless the first places are all taken
by other roles. -/
theorem select_iff {router : LogisticRouter R} {m : ℕ} (hmax : router.maxActivation = m)
    (hmin : router.minActivation ≤ router.maxActivation) (ranked : List (R × Expert σ))
    (hm : 1 ≤ m) (P : String → Prop) :
    (router.select ranked).length ≤ m ∧
      (((∃ n ∈ router.select ranked, P n) ∨ (router.select ranked).length < m) ↔
        ¬ (m ≤ ranked.length ∧ ∀ x ∈ ranked.take m, ¬ P x.2.name)) := by
  rw [hmax] at hmin
  cases ranked with
  | nil =>
    simp only [select, hmax, sliceTo_natCast, List.take_nil, List.map_nil, List.length_nil]
    exact ⟨m.zero_le, iff_of_true (.inr hm) fun h => absurd h.1 (by omega)⟩
  | cons best rest =>
    simp only [select, hmax, sliceTo_natCast, List.length_map, List.length_take,
      List.length_cons]
    split
    case isTrue hlt =>
      -- fewer than the minimum: there is a place left beside the best one
      simp only [List.length_singleton]
      exact ⟨hm, iff_of_true (.inr (by omega)) (by omega)⟩
    case isFalse =>
      simp only [List.length_map, List.length_take, List.length_cons]
      refine ⟨by omega, ?_⟩
      rw [not_and_or, or_comm]
      apply or_congr
      · omega
      · simp only [List.mem_map, exists_exists_and_eq_and, not_forall, not_not, exists_prop]

/-- Two experts with the same score stand in the order of their roles. -/
def RoleBefore (pool : List (Expert σ)) (x y : R × Expert σ) : Prop :=
  Earlier (pool.map (·.role)) x.2.role y.2.role

instance (pool : List (Expert σ)) : DecidableRel (RoleBefore pool : R × Expert σ → _ → Prop) :=
  fun _ _ => inferInstanceAs (Decidable (Earlier ..))

/-- The ranking is by score, and by order in the pool among equals. -/
theorem ranked_pairwise (router : LogisticRouter R) (scores : Dict String R)
    (pool : List (Expert σ)) :
    (router.ranked scores pool).Pairwise (Outranks (·.1) (RoleBefore pool)) := by
  have horder := (isRoleBest_roleBest scores pool).order
  rw [List.pairwise_map] at horder
  have hvalues : ((roleBest scores pool).map (·.2)).Pairwise (RoleBefore pool) :=
    List.pairwise_map.mpr horder
  exact rank_pairwise (hvalues.sublist List.filter_sublist)

/-- An item of `role_best` competes and outranks the forced role's exactly when its role does. -/
theorem crowds_iff [Unicode] {router : LogisticRouter R} {prompt : String}
    {scores : Dict String R} (hscores : router.score prompt = .ok scores)
    {pool : List (Expert σ)} {best : Dict String (R × Expert σ)}
    (h : IsRoleBest (expertScore scores) pool best) {x : R × Expert σ} (hx : x ∈ best.map (·.2)) :
    (router.threshold ≤ x.1 ∧ ∀ f ∈ best.map (·.2), router.threshold ≤ f.1 →
        f.2.role = router.forceLastRole → Outranks (·.1) (RoleBefore pool) x f) ↔
      router.Crowds prompt pool x.2.role := by
  have hscore : router.scoreOf prompt = (expertScore scores : Expert σ → R) := by
    funext e
    rw [scoreOf, hscores]
  obtain ⟨p, hp, rfl⟩ := List.mem_map.mp hx
  obtain ⟨hmem, hval⟩ := h.sound p hp
  simp only [Crowds, hscore, Outranks, RoleBefore]
  constructor
  · rintro ⟨hok, hall⟩
    refine ⟨p.2.2, hmem, rfl, hval ▸ hok, ?_⟩
    intro f hf hrole hfok
    obtain ⟨q, hq, hqrole, hle⟩ := h.covers f hf
    rcases hall q.2 (List.mem_map_of_mem hq) (hfok.trans hle) (hqrole.trans hrole) with
      hlt | ⟨heq, hbefore⟩
    · exact .inl (hval ▸ hle.trans_lt hlt)
    -- equal scores: the order of the roles decides
    · rcases (hle.trans heq.ge).lt_or_eq with hlt | heq'
      · exact .inl (hval ▸ hlt)
      · exact .inr ⟨hval ▸ heq'.symm, by rwa [← hqrole]⟩
  · rintro ⟨e, he, hrole, hok, hall⟩
    have hle : expertScore scores e ≤ p.2.1 := h.le he hp hrole
    refine ⟨hok.trans hle, ?_⟩
    intro f hf hfok hfrole
    obtain ⟨q, hq, rfl⟩ := List.mem_map.mp hf
    obtain ⟨hqmem, hqval⟩ := h.sound q hq
    rcases hall q.2.2 hqmem hfrole (hqval ▸ hfok) with hlt | ⟨heq, hbefore⟩
    · exact .inl (hqval ▸ hlt.trans_le hle)
    · rcases hle.lt_or_eq with hlt | heq'
      · exact .inl (hqval ▸ heq ▸ hlt)
      · exact .inr ⟨by rw [hqval, ← heq, heq'], by rwa [← hrole]⟩

/-- The first places are all taken by other roles exactly when that many roles are ahead. -/
theorem ranked_avoids_iff [Unicode] {router : LogisticRouter R} {prompt : String}
    {scores : Dict String R} (hscores : router.score prompt = .ok scores)
    (pool : List (Expert σ)) (m : ℕ) :
    (m ≤ (router.ranked scores pool).length ∧
        ∀ x ∈ (router.ranked scores pool).take m, ¬ x.2.role = router.forceLastRole) ↔
      m ≤ router.crowd prompt pool := by
  have hbest := isRoleBest_roleBest scores pool
  have hperm : (router.ranked scores pool).Perm
      (((roleBest scores pool).map (·.2)).filter (router.threshold ≤ ·.1)) := rank_perm ..
  rw [take_filter_avoids_iff (fun x => x.2.role = router.forceLastRole)
    (fun x => router.threshold ≤ x.1) (fun h => h.asymm fun _ _ h => h.asymm)
    (ranked_pairwise router scores pool) hperm]
  have hroles : (roleBest scores pool).map (·.2.2.role) =
      ((roleBest scores pool).map (·.2)).map (·.2.role) := by simp
  have hcrowd : router.crowd prompt pool =
      ((roleBest scores pool).map (·.2)).countP fun x => router.Crowds prompt pool x.2.role := by
    rw [crowd, ← hbest.roles_perm.countP_eq, hroles, List.countP_map]
    rfl
  rw [hcrowd]
  refine iff_of_eq (congrArg (m ≤ ·) (List.countP_congr fun x hx => ?_))
  simpa using crowds_iff hscores hbest hx

/-- A name has the role if it is among the names of that role. -/
theorem expertRoleName_eq_value {pool : List (Expert σ)} (hnd : (pool.map (·.name)).Nodup)
    {role : ExpertRole} {n : String} :
    expertRoleName pool n = role.value ↔ n ∈ lastRoleNames pool role := by
  rw [expertRoleName]
  cases hfind : pool.find? (·.name = n) with
  | none =>
    have hnone : n ∉ lastRoleNames pool role := by
      rw [mem_lastRoleNames]
      rintro ⟨e, he, -, rfl⟩
      simpa using List.find?_eq_none.mp hfind e he
    have hvalue : "" ≠ role.value := by cases role <;> decide
    exact iff_of_false hvalue hnone
  | some e =>
    have hname : e.name = n := by simpa using List.find?_some hfind
    rw [← hname, name_mem_lastRoleNames hnd (List.mem_of_find?_eq_some hfind)]
    exact ExpertRole.value_injective.eq_iff

/-- The experts of the ranking are experts of the pool. -/
theorem mem_of_mem_ranked {router : LogisticRouter R} {scores : Dict String R}
    {pool : List (Expert σ)} {x : R × Expert σ} (hx : x ∈ router.ranked scores pool) :
    x.2 ∈ pool := by
  obtain ⟨hx, -⟩ := List.mem_filter.mp (mem_rank.mp hx)
  obtain ⟨p, hp, rfl⟩ := List.mem_map.mp hx
  exact ((isRoleBest_roleBest scores pool).sound p hp).1

/-- A route ends with the forced role exactly when fewer than `max_activation` other roles are
ahead of it. -/
theorem route_endsWith_iff [Unicode] {router : LogisticRouter R} {prompt : String}
    {pool : List (Expert σ)} (hnd : (pool.map (·.name)).Nodup)
    (hex : ∃ e ∈ pool, e.role = router.forceLastRole) (hone : 1 ≤ router.minActivation)
    (hmin : router.minActivation ≤ router.maxActivation) {names : List String}
    (h : router.route prompt pool = .ok names) :
    EndsWithRole pool router.forceLastRole names ↔
      (router.crowd prompt pool : ℤ) < router.maxActivation := by
  obtain ⟨m, hmax⟩ : ∃ m : ℕ, router.maxActivation = m :=
    ⟨_, (Int.toNat_of_nonneg (by omega)).symm⟩
  have hm : 1 ≤ m := by omega
  have hne : ¬ pool.isEmpty := by
    obtain ⟨e, he, -⟩ := hex
    simpa using List.ne_nil_of_mem he
  rw [route, if_neg hne] at h
  cases hscores : router.score prompt with
  | error x =>
    rw [hscores] at h
    cases h
  | ok scores =>
    rw [hscores] at h
    cases h
    obtain ⟨hlen, hselect⟩ := select_iff hmax hmin (router.ranked scores pool) hm
      (· ∈ lastRoleNames pool router.forceLastRole)
    obtain ⟨hlen', hfallback⟩ := absoluteFallback_iff hm hlen hex
    rw [hmax, endsWithRole_iff hm hlen' hex, hfallback, hselect]
    -- distinct names: a name is one of the role if and only if its expert is
    · have havoid : (∀ x ∈ (router.ranked scores pool).take m,
          ¬ x.2.name ∈ lastRoleNames pool router.forceLastRole) ↔
          ∀ x ∈ (router.ranked scores pool).take m, ¬ x.2.role = router.forceLastRole := by
        refine forall₂_congr fun x hx => ?_
        rw [name_mem_lastRoleNames hnd (mem_of_mem_ranked (List.mem_of_mem_take hx))]
      rw [havoid, ranked_avoids_iff hscores]
      omega
    · simp [expertRoleName_eq_value hnd]

end LogisticRouter

/-! ## The cosine router -/

namespace CosineRouter

variable [Hashlib] [Numpy R]

/-- The similarity of an expert to the prompt; where it raises, so does `route`. -/
def similarityOf (router : CosineRouter R) (protos : Prototypes R) (prompt : String)
    (e : Expert σ) : R :=
  match router.similarity protos prompt e with
  | .ok sim => sim
  | .error _ => lit 0

/-- A similarity that can win a place: one that reaches the threshold. The only place of a
selection goes to the best expert whatever its similarity. -/
def Contends (router : CosineRouter R) (sim : R) : Prop :=
  router.maxActivation = 1 ∨ router.threshold ≤ sim

instance (router : CosineRouter R) : DecidablePred router.Contends :=
  fun _ => inferInstanceAs (Decidable (_ ∨ _))

/-- The expert contends and outranks every expert of the forced role that does: by its
similarity, or as the one that stands first in the pool. -/
def Crowds (router : CosineRouter R) (protos : Prototypes R) (prompt : String)
    (pool : List (Expert σ)) (e : Expert σ) : Prop :=
  router.Contends (router.similarityOf protos prompt e) ∧
    ∀ f ∈ pool, router.Contends (router.similarityOf protos prompt f) →
      f.role = router.forceLastRole →
        Outranks (router.similarityOf protos prompt)
          (fun e f => Earlier (pool.map (·.name)) e.name f.name) e f

instance (router : CosineRouter R) (protos : Prototypes R) (prompt : String)
    (pool : List (Expert σ)) : DecidablePred (router.Crowds protos prompt pool) :=
  fun _ => inferInstanceAs (Decidable (_ ∧ ∀ f ∈ pool, _))

/-- The number of experts that are ahead of the forced role. -/
def crowd (router : CosineRouter R) (protos : Prototypes R) (prompt : String)
    (pool : List (Expert σ)) : ℕ :=
  pool.countP (router.Crowds protos prompt pool)

omit [Hashlib] [Numpy R] in
/-- A selection has the forced role or a place left for it, unless the first places are all taken
by other experts. -/
theorem select_iff {router : CosineRouter R} {m : ℕ} (hmax : router.maxActivation = m)
    (hone : 1 ≤ router.minActivation) (hmin : router.minActivation ≤ router.maxActivation)
    {ranked : List (R × Expert σ)} (hdesc : ranked.Pairwise fun x y => y.1 ≤ x.1)
    (P : String → Prop) :
    (router.select ranked).length ≤ m ∧
      (((∃ n ∈ router.select ranked, P n) ∨ (router.select ranked).length < m) ↔
        ¬ (m ≤ (ranked.filter (router.Contends ·.1)).length ∧
          ∀ x ∈ (ranked.filter (router.Contends ·.1)).take m, ¬ P x.2.name)) := by
  have hm : 1 ≤ m := by omega
  cases ranked with
  | nil =>
    simp only [select, hmax, sliceTo_natCast, List.take_nil, List.filter_nil, List.map_nil,
      List.length_nil]
    exact ⟨m.zero_le, iff_of_true (.inr hm) fun h => absurd h.1 (by omega)⟩
  | cons best rest =>
    rcases hm.eq_or_lt with rfl | hm2
    · -- the only place is the best expert's
      have hmin1 : router.minActivation = 1 := by omega
      have hselect : router.select (best :: rest) = [best.2.name] := by
        rw [select, hmax, sliceTo_natCast, hmin1]
        by_cases hok : router.threshold ≤ best.1 <;> simp [hok]
      have hcontends : (best :: rest).filter (router.Contends ·.1) = best :: rest := by
        rw [List.filter_eq_self]
        exact fun _ _ => decide_eq_true (.inl hmax)
      rw [hselect, hcontends]
      simp
    · have hcontends : (best :: rest).filter (router.Contends ·.1) =
          (best :: rest).filter (router.threshold ≤ ·.1) := by
        have hne : router.maxActivation ≠ 1 := by omega
        simp [Contends, hne]
      -- The scores descend, so those over the threshold stand in front, and the cut may come first.
      have hprefix : (best :: rest).Pairwise fun x y =>
          decide (router.threshold ≤ y.1) = true → decide (router.threshold ≤ x.1) = true :=
        hdesc.imp fun hle h => decide_eq_true ((of_decide_eq_true h).trans hle)
      rw [hcontends]
      simp only [select, hmax, sliceTo_natCast, filter_take_of_prefix hprefix, List.length_map,
        List.length_take]
      generalize (best :: rest).filter (router.threshold ≤ ·.1) = contenders
      split
      case isTrue hlt =>
        simp only [List.length_singleton]
        exact ⟨hm, iff_of_true (.inr hm2) (by omega)⟩
      case isFalse =>
        simp only [List.length_map, List.length_take]
        refine ⟨by omega, ?_⟩
        rw [not_and_or, or_comm]
        apply or_congr
        · omega
        · simp only [List.mem_map, exists_exists_and_eq_and, not_forall, not_not, exists_prop]

/-- Two experts with the same similarity stand in the order of the pool. -/
def NameBefore (pool : List (Expert σ)) (x y : R × Expert σ) : Prop :=
  Earlier (pool.map (·.name)) x.2.name y.2.name

instance (pool : List (Expert σ)) : DecidableRel (NameBefore pool : R × Expert σ → _ → Prop) :=
  fun _ _ => inferInstanceAs (Decidable (Earlier ..))

/-- The scores of a pool with distinct names are the similarities of its experts. -/
theorem scored_eq {router : CosineRouter R} {prompt : String} {q : List R}
    (hq : router.embed prompt = .ok q) {pool : List (Expert σ)}
    (hnd : (pool.map (·.name)).Nodup) {protos protos' : Prototypes R}
    {scored : List (R × Expert σ)}
    (h : pool.mapM (router.scoreExpert q) protos = .ok scored protos') :
    scored = pool.map fun e => (router.similarityOf protos prompt e, e) := by
  have hall := mapM_scoreExpert hq hnd (fun _ _ => rfl) h
  clear h hnd
  induction hall with
  | nil => rfl
  | cons hr _ ih =>
    obtain ⟨rfl, hsim⟩ := hr
    rw [List.map_cons, ← ih, similarityOf, hsim]

/-- The first places are all taken by other experts exactly when that many are ahead. -/
theorem ranked_avoids_iff {router : CosineRouter R} {prompt : String} {protos : Prototypes R}
    {pool : List (Expert σ)} (hnd : (pool.map (·.name)).Nodup) (m : ℕ) {ranked : List (R × Expert σ)}
    (hranked : ranked =
      rank (·.1) (pool.map fun e => (router.similarityOf protos prompt e, e))) :
    (m ≤ (ranked.filter (router.Contends ·.1)).length ∧
        ∀ x ∈ (ranked.filter (router.Contends ·.1)).take m,
          ¬ x.2.role = router.forceLastRole) ↔
      m ≤ router.crowd protos prompt pool := by
  have hbefore : (pool.map fun e => (router.similarityOf protos prompt e, e)).Pairwise
      (NameBefore pool) := by
    have hnames := pairwise_earlier hnd
    rw [List.pairwise_map] at hnames ⊢
    exact hnames
  have hpairwise : ranked.Pairwise (Outranks (·.1) (NameBefore pool)) :=
    hranked ▸ rank_pairwise hbefore
  have hperm := (rank_perm (·.1) (pool.map fun e => (router.similarityOf protos prompt e, e))).filter
    (router.Contends ·.1)
  rw [← hranked] at hperm
  rw [take_filter_avoids_iff (fun x => x.2.role = router.forceLastRole)
    (fun x => router.Contends x.1) (fun h => h.asymm fun _ _ h => h.asymm)
    (hpairwise.sublist List.filter_sublist) hperm]
  rw [crowd, List.countP_map]
  refine iff_of_eq (congrArg (m ≤ ·) (List.countP_congr fun e _ => ?_))
  simp only [Function.comp_apply, decide_eq_true_eq, List.forall_mem_map]
  exact Iff.rfl

omit [PyFloat R] [Hashlib] [Numpy R] in
/-- The role is missing if no selected name has it. -/
theorem missing_iff {pool : List (Expert σ)} {role : ExpertRole} {selected : List String} :
    (!selected.any (lastRoleNames pool role).contains) = true ↔
      ∀ n ∈ selected, n ∉ lastRoleNames pool role := by
  simp

/-- A route ends with the forced role exactly when fewer than `max_activation` other experts are
ahead of it. -/
theorem route_endsWith_iff {router : CosineRouter R} {prompt : String} {pool : List (Expert σ)}
    (hnd : (pool.map (·.name)).Nodup) (hex : ∃ e ∈ pool, e.role = router.forceLastRole)
    (hone : 1 ≤ router.minActivation) (hmin : router.minActivation ≤ router.maxActivation)
    {protos protos' : Prototypes R} {names : List String}
    (h : router.route prompt pool protos = .ok names protos') :
    EndsWithRole pool router.forceLastRole names ↔
      (router.crowd protos prompt pool : ℤ) < router.maxActivation := by
  obtain ⟨m, hmax⟩ : ∃ m : ℕ, router.maxActivation = m :=
    ⟨_, (Int.toNat_of_nonneg (by omega)).symm⟩
  have hm : 1 ≤ m := by omega
  have hne : ¬ pool.isEmpty := by
    obtain ⟨e, he, -⟩ := hex
    simpa using List.ne_nil_of_mem he
  rw [route, if_neg hne] at h
  obtain ⟨q, _, hembed, hscore⟩ := bind_eq_ok.mp h
  obtain ⟨hq, rfl⟩ := liftExcept_eq_ok.mp hembed
  obtain ⟨scored, _, hscored, hpure⟩ := bind_eq_ok.mp hscore
  have heq := scored_eq hq hnd hscored
  rw [pure_apply] at hpure
  cases hpure
  generalize hranked : rank (fun x : R × Expert σ => x.1) scored = ranked
  have hdesc : ranked.Pairwise fun x y => y.1 ≤ x.1 := hranked ▸ rank_desc ..
  obtain ⟨hlen, hselect⟩ := select_iff hmax hone hmin hdesc
    (· ∈ lastRoleNames pool router.forceLastRole)
  obtain ⟨hlen', hfallback⟩ := absoluteFallback_iff hm hlen hex
  rw [hmax, endsWithRole_iff hm hlen' hex missing_iff, hfallback, hselect]
  have havoid : (∀ x ∈ (ranked.filter (router.Contends ·.1)).take m,
      ¬ x.2.name ∈ lastRoleNames pool router.forceLastRole) ↔
      ∀ x ∈ (ranked.filter (router.Contends ·.1)).take m,
        ¬ x.2.role = router.forceLastRole := by
    refine forall₂_congr fun x hx => ?_
    have hmem : x.2 ∈ pool := by
      have hscored := (List.mem_filter.mp (List.mem_of_mem_take hx)).1
      rw [← hranked, mem_rank, heq] at hscored
      obtain ⟨e, he, rfl⟩ := List.mem_map.mp hscored
      exact he
    rw [name_mem_lastRoleNames hnd hmem]
  rw [havoid, ranked_avoids_iff hnd m (by rw [← hranked, heq])]
  omega

end CosineRouter

/-! ## Both routers -/

/-- One of the two routers. A cosine router comes with the prototypes registered so far. -/
inductive AnyRouter (R : Type) where
  | logistic (router : LogisticRouter R)
  | cosine (router : CosineRouter R) (prototypes : Prototypes R)

namespace AnyRouter

/-- `min_activation`. -/
def minActivation : AnyRouter R → ℤ
  | logistic router => router.minActivation
  | cosine router _ => router.minActivation

/-- `max_activation`. -/
def maxActivation : AnyRouter R → ℤ
  | logistic router => router.maxActivation
  | cosine router _ => router.maxActivation

/-- `force_last_role`. -/
def forceLastRole : AnyRouter R → ExpertRole
  | logistic router => router.forceLastRole
  | cosine router _ => router.forceLastRole

variable [Unicode] [Hashlib] [Numpy R]

/-- `route`. -/
def route (r : AnyRouter R) (prompt : String) (pool : List (Expert σ)) :
    Except Exn (List String) :=
  match r with
  | logistic router => router.route prompt pool
  | cosine router protos => outcome (router.route prompt pool protos)

/-- The number of competitors that are ahead of the forced role: roles for the logistic router,
experts for the cosine router. -/
def crowd (r : AnyRouter R) (prompt : String) (pool : List (Expert σ)) : ℕ :=
  match r with
  | logistic router => router.crowd prompt pool
  | cosine router protos => router.crowd protos prompt pool

/-- The last name of a route has the forced role if and only if fewer than `max_activation`
competitors are ahead of that role. -/
theorem endsWith_forced_iff (r : AnyRouter R) (prompt : String) (pool : List (Expert σ))
    (hnd : (pool.map (·.name)).Nodup) (hex : ∃ e ∈ pool, e.role = r.forceLastRole)
    (hone : 1 ≤ r.minActivation) (hmin : r.minActivation ≤ r.maxActivation)
    (names : List String) (h : r.route prompt pool = .ok names) :
    EndsWithRole pool r.forceLastRole names ↔ (r.crowd prompt pool : ℤ) < r.maxActivation := by
  cases r with
  | logistic router => exact router.route_endsWith_iff hnd hex hone hmin h
  | cosine router protos =>
    exact router.route_endsWith_iff hnd hex hone hmin (eq_ok_of_outcome h)

end AnyRouter

/-- An analyst, and a synthesizer after it. -/
def analystFirst : List (Expert Unit) := (duo {} {}).experts

/-- A logistic router that scores both of their roles one half. -/
def evenLogistic (maxActivation : ℤ) : LogisticRouter ℚ where
  maxActivation
  threshold := 15 / 100
  weights := [("analyst", [("bias", 0)]), ("synthesizer", [("bias", 0)])]

/-- A cosine router to which only the analyst is similar. -/
def analystCosine (maxActivation : ℤ) : CosineRouter ℚ where
  maxActivation
  threshold := 1 / 10
  embedFn := some fun _ => .ok [1]

@[inherit_doc analystCosine] def analystPrototypes : Prototypes ℚ := [("a", [1]), ("b", [0])]

/-- A pool whose selection ends with the forced role. -/
theorem AnyRouter.endsWith_forced_duo :
    letI := PyFloat.rat
    letI := Numpy.rat
    letI := Unicode.ascii
    letI := Hashlib.zeros
    (AnyRouter.logistic (evenLogistic 2)).route "p" analystFirst = .ok ["a", "b"] ∧
      EndsWithRole analystFirst .synthesizer ["a", "b"] := by
  let _ := PyFloat.rat
  let _ := Numpy.rat
  let _ := Unicode.ascii
  let _ := Hashlib.zeros
  have hroute : (AnyRouter.logistic (evenLogistic 2)).route "p" analystFirst = .ok ["a", "b"] := by
    decide +kernel
  exact ⟨hroute, (endsWith_forced_iff (.logistic (evenLogistic 2)) "p" analystFirst (by decide)
    (by decide) (by decide) (by decide) ["a", "b"] hroute).mpr (by decide +kernel)⟩

/-- With a single place, the analyst takes it from the synthesizer. -/
theorem AnyRouter.forced_role_dropped :
    letI := PyFloat.rat
    letI := Numpy.rat
    letI := Unicode.ascii
    letI := Hashlib.zeros
    (analystFirst.map (·.name)).Nodup ∧ (∃ e ∈ analystFirst, e.role = .synthesizer) ∧
      (AnyRouter.logistic (evenLogistic 1)).route "p" analystFirst = .ok ["a"] ∧
      (AnyRouter.cosine (analystCosine 1) analystPrototypes).route "p" analystFirst =
        .ok ["a"] ∧
      ¬ EndsWithRole analystFirst .synthesizer ["a"] := by
  refine ⟨by decide, by decide, by decide +kernel, by decide +kernel, ?_⟩
  rintro ⟨n, hn, hrole⟩
  cases hn
  exact absurd hrole (by decide)

end Chen
