import Chen.Router.ActivationCap

/-!
# The activation minimum

When fewer than `min_activation` candidates are selected, the logistic and the cosine router replace
the selection by the best candidate. What is left of the minimum is what the fallback and the forced
role bring back, which is never more than two names.
-/

namespace Chen

open Effect Ranking

variable {σ R : Type}

section Finish

variable {pool : List (Expert σ)} {role : ExpertRole} {selected : List String}

/-- The end of a route keeps as many names as the cap allows. -/
theorem length_finish (h : Chosen pool selected) {m : ℕ} (hm : 1 ≤ m) {missing : Bool}
    (hmissing : missing = true ↔
      ∀ n ∈ absoluteFallback pool role selected, n ∉ lastRoleNames pool role) :
    (capActivation m (moveLastRole pool role
      (appendLastRole pool role missing (absoluteFallback pool role selected)))).length =
        min m (completed pool role selected).length := by
  have hcomplete : appendLastRole pool role missing (absoluteFallback pool role selected) =
      completed pool role selected := by
    rw [completed, missing_eq hmissing]
  rw [hcomplete, capActivation, if_pos (by omega), sliceTo_natCast, List.length_take,
    (moveLastRole_perm pool role (h.completed role).nodup).length_eq]

/-- Completing a selection takes nothing away. -/
theorem length_le_completed (hne : selected ≠ []) :
    selected.length ≤ (completed pool role selected).length := by
  rw [completed, absoluteFallback_of_ne_nil pool role hne, appendLastRole]
  split
  · split <;> simp
  · exact le_rfl

/-- Nothing selected is completed to the fallback alone. -/
theorem length_completed_nil (hne : pool ≠ []) : (completed pool role []).length = 1 := by
  rw [completed]
  cases hfind : pool.find? (·.role = role) with
  | some e =>
    have hfallback : absoluteFallback pool role [] = [e.name] := by simp [absoluteFallback, hfind]
    have hrole : e.name ∈ lastRoleNames pool role :=
      mem_lastRoleNames.mpr
        ⟨e, List.mem_of_find?_eq_some hfind, by simpa using List.find?_some hfind, rfl⟩
    rw [hfallback]
    simp [appendLastRole, hrole]
  | none =>
    obtain ⟨e, es, rfl⟩ := List.exists_cons_of_ne_nil hne
    have hfallback : absoluteFallback (e :: es) role [] = [e.name] := by
      simp [absoluteFallback, hfind]
    have hnone : (e :: es).find? (fun e' => e'.role = role && !([e.name]).contains e'.name) =
        none := by
      rw [List.find?_eq_none] at hfind ⊢
      intro e' he'
      simpa using fun hrole => absurd hrole (by simpa using hfind e' he')
    rw [hfallback, appendLastRole, hnone]
    split <;> rfl

/-- A single name is completed by the forced role if the pool has it and the name is another's. -/
theorem length_completed_singleton {n : String} :
    (completed pool role [n]).length =
      if (∃ e ∈ pool, e.role = role) ∧ n ∉ lastRoleNames pool role then 2 else 1 := by
  rw [completed, absoluteFallback_of_ne_nil pool role (by simp)]
  by_cases hrole : n ∈ lastRoleNames pool role
  · simp [appendLastRole, hrole]
  · have hmissing : (!([n].any (lastRoleNames pool role).contains)) = true := by simp [hrole]
    rw [hmissing]
    by_cases hex : ∃ e ∈ pool, e.role = role
    · obtain ⟨last, -, happend⟩ := appendLastRole_missing hex
        (show ∀ m ∈ [n], m ∉ lastRoleNames pool role by simpa using hrole)
      rw [happend, if_pos ⟨hex, hrole⟩]
      rfl
    · have hnone : pool.find? (fun e => e.role = role && !([n].contains e.name)) = none := by
        rw [List.find?_eq_none]
        intro e he
        simpa using fun heq => absurd ⟨e, he, heq⟩ hex
      rw [if_neg fun h => hex h.1, appendLastRole, if_pos rfl, hnone]
      rfl

/-- A minimum `a`, where `c` candidates qualify: a selection that falls short is replaced by `top`,
if there is one, and completed. -/
theorem honoured_iff {a c m : ℕ} (hone : 1 ≤ a) (ham : a ≤ m) (hne : pool ≠ [])
    {names : List String} {top : Option String}
    (hlen : names.length = min m (completed pool role selected).length)
    (hfull : a ≤ c → a ≤ selected.length) (hshort : c < a → selected = top.toList) :
    (a ≤ names.length ∧ (c < a → c ≤ names.length)) ↔
      a ≤ c ∨ a = 1 ∨ a = 2 ∧ (∃ e ∈ pool, e.role = role) ∧
        ∃ n ∈ top, n ∉ lastRoleNames pool role := by
  by_cases hc : a ≤ c
  · have hselected := hfull hc
    have hle : selected.length ≤ (completed pool role selected).length :=
      length_le_completed (List.ne_nil_of_length_pos (Nat.lt_of_lt_of_le hone hselected))
    exact iff_of_true (by omega) (.inl hc)
  -- Too few passed: the selection is the best one alone, and the forced role may join it.
  · rw [hlen, hshort (not_le.mp hc)]
    cases top with
    | none =>
      rw [Option.toList_none, length_completed_nil hne]
      simp only [Option.mem_def, reduceCtorEq, false_and, exists_false, and_false, or_false]
      omega
    | some n =>
      rw [Option.toList_some, length_completed_singleton]
      have hroom : (∃ n' ∈ some n, n' ∉ lastRoleNames pool role) ↔
          n ∉ lastRoleNames pool role := by simp
      rw [hroom]
      split
      case isTrue h =>
        simp only [h, not_false_eq_true, and_self, and_true]
        omega
      case isFalse h =>
        simp only [h, and_false, or_false]
        omega

end Finish

/-! ## The logistic router -/

namespace LogisticRouter

variable [PyFloat R]

omit [PyFloat R] in
/-- The selection that reaches the minimum, and the one that does not. -/
theorem select_spec {router : LogisticRouter R} {a m : ℕ} (ham : a ≤ m)
    (hmin : router.minActivation = a) (hmax : router.maxActivation = m)
    (ranked : List (R × Expert σ)) :
    (a ≤ ranked.length → a ≤ (router.select ranked).length) ∧
      (ranked.length < a → router.select ranked = (ranked.head?.map (·.2.name)).toList) := by
  cases ranked with
  | nil => simp [select, hmax, sliceTo_natCast]
  | cons best rest =>
    simp only [select, hmax, hmin, sliceTo_natCast, List.length_map, List.length_take,
      List.head?_cons, Option.map_some, Option.toList_some]
    constructor
    · intro hle
      rw [if_neg (by omega), List.length_map, List.length_take]
      omega
    · intro hlt
      rw [if_pos (by omega)]

variable [Unicode]

/-- The roles of which an expert reaches the threshold. -/
def passedRoles (router : LogisticRouter R) (prompt : String) (pool : List (Expert σ)) :
    List ExpertRole :=
  ((pool.filter (router.threshold ≤ router.scoreOf prompt ·)).map (·.role)).dedup

/-- The roles that are ranked are those that pass. -/
theorem ranked_roles_perm {router : LogisticRouter R} {prompt : String} {scores : Dict String R}
    (hscores : router.score prompt = .ok scores) (pool : List (Expert σ)) :
    ((router.ranked scores pool).map (·.2.role)).Perm (router.passedRoles prompt pool) := by
  have hbest := isRoleBest_roleBest scores pool
  have hscore : router.scoreOf prompt = (expertScore scores : Expert σ → R) := by
    funext e
    rw [scoreOf, hscores]
  have hnd : ((router.ranked scores pool).map (·.2.role)).Nodup := by
    refine ((rank_perm ..).map _).nodup_iff.mpr ?_
    have hall : (((roleBest scores pool).map (·.2)).map (·.2.role)).Nodup := by
      rw [List.map_map]
      exact nodup_of_pairwise_earlier hbest.order
    exact hall.sublist (List.filter_sublist.map _)
  have hnd' : (router.passedRoles prompt pool).Nodup := List.nodup_dedup _
  rw [List.perm_ext_iff_of_nodup hnd hnd']
  intro r
  simp only [passedRoles, List.mem_dedup, List.mem_map, List.mem_filter, decide_eq_true_eq, hscore,
    ranked, mem_rank]
  constructor
  · rintro ⟨_, ⟨⟨p, hp, rfl⟩, hpass⟩, rfl⟩
    obtain ⟨hmem, hval⟩ := hbest.sound p hp
    exact ⟨p.2.2, ⟨hmem, hval ▸ hpass⟩, rfl⟩
  · rintro ⟨e, ⟨he, hpass⟩, rfl⟩
    obtain ⟨p, hp, hrole, hle⟩ := hbest.covers e he
    exact ⟨p.2, ⟨⟨p, hp, rfl⟩, hpass.trans hle⟩, hrole⟩

/-- The best candidate of a route in which fewer than two roles pass leaves room for the forced
role if there is one and it is another's. -/
theorem top_iff {router : LogisticRouter R} {prompt : String} {scores : Dict String R}
    (hscores : router.score prompt = .ok scores) {pool : List (Expert σ)}
    (hnd : (pool.map (·.name)).Nodup) (hfew : (router.passedRoles prompt pool).length < 2) :
    (∃ n ∈ (router.ranked scores pool).head?.map (·.2.name),
        n ∉ lastRoleNames pool router.forceLastRole) ↔
      (router.passedRoles prompt pool).length = 1 ∧
        router.forceLastRole ∉ router.passedRoles prompt pool := by
  have hperm := ranked_roles_perm hscores pool
  have hmem : ∀ x ∈ router.ranked scores pool, x.2 ∈ pool := by
    intro x hx
    obtain ⟨p, hp, rfl⟩ := List.mem_map.mp (List.mem_of_mem_filter (mem_rank.mp hx))
    exact ((isRoleBest_roleBest scores pool).sound p hp).1
  rw [← hperm.length_eq] at hfew ⊢
  rw [← hperm.mem_iff]
  match router.ranked scores pool, hfew, hmem with
  | [], _, _ => simp
  | [x], _, hmem =>
    have hrole : x.2.name ∈ lastRoleNames pool router.forceLastRole ↔
        x.2.role = router.forceLastRole :=
      name_mem_lastRoleNames hnd (hmem x (List.mem_singleton_self x))
    simp [hrole, eq_comm]
  | _ :: _ :: _, hfew, _ =>
    simp only [List.map_cons, List.length_cons] at hfew
    omega

/-- A route reaches the minimum where enough roles pass, or the fallback and the forced role make
up for it. -/
theorem route_honours_iff {router : LogisticRouter R} {a m : ℕ} (hone : 1 ≤ a) (ham : a ≤ m)
    (hmin : router.minActivation = a) (hmax : router.maxActivation = m) {prompt : String}
    {pool : List (Expert σ)} (hnd : (pool.map (·.name)).Nodup) (hne : pool ≠ [])
    {names : List String} (h : router.route prompt pool = .ok names) :
    let c := (router.passedRoles prompt pool).length
    (a ≤ names.length ∧ (c < a → c ≤ names.length)) ↔
      a ≤ c ∨ a = 1 ∨ a = 2 ∧ (∃ e ∈ pool, e.role = router.forceLastRole) ∧
        c = 1 ∧ router.forceLastRole ∉ router.passedRoles prompt pool := by
  intro c
  rw [route, if_neg (by simpa using hne)] at h
  cases hscores : router.score prompt with
  | error x =>
    rw [hscores] at h
    cases h
  | ok scores =>
    rw [hscores] at h
    cases h
    -- one ranked expert for each role that passed
    have hcount : (router.ranked scores pool).length = c := by
      show _ = (router.passedRoles prompt pool).length
      rw [← (ranked_roles_perm hscores pool).length_eq, List.length_map]
    obtain ⟨hfull, hshort⟩ := select_spec ham hmin hmax (router.ranked scores pool)
    rw [hcount] at hfull hshort
    rw [hmax]
    rw [honoured_iff hone ham hne (length_finish
      (router.chosen_select (router.chosen_ranked scores hnd)) (by omega)
      (by simp [expertRoleName_eq_value hnd])) hfull hshort]
    by_cases hc : a ≤ c
    · simp only [hc, true_or]
    · refine or_congr_right (or_congr_right (and_congr_right fun htwo => ?_))
      refine and_congr_right fun _ => ?_
      exact top_iff hscores hnd (by omega)

end LogisticRouter

/-! ## The cosine router -/

namespace CosineRouter

variable [PyFloat R]

/-- The selection that reaches the minimum, and the one that does not. -/
theorem select_spec {router : CosineRouter R} {a m : ℕ} (ham : a ≤ m)
    (hmin : router.minActivation = a) (hmax : router.maxActivation = m)
    {ranked : List (R × Expert σ)} (hdesc : ranked.Pairwise fun x y => y.1 ≤ x.1) :
    (a ≤ ranked.countP (router.threshold ≤ ·.1) → a ≤ (router.select ranked).length) ∧
      (ranked.countP (router.threshold ≤ ·.1) < a →
        router.select ranked = (ranked.head?.map (·.2.name)).toList) := by
  have hprefix : ranked.Pairwise fun x y =>
      decide (router.threshold ≤ y.1) = true → decide (router.threshold ≤ x.1) = true :=
    hdesc.imp fun hle h => decide_eq_true ((of_decide_eq_true h).trans hle)
  cases ranked with
  | nil => simp [select, hmax, sliceTo_natCast]
  | cons best rest =>
    rw [select, hmax, hmin, sliceTo_natCast, filter_take_of_prefix hprefix,
      List.countP_eq_length_filter]
    simp only [List.length_map, List.length_take, List.head?_cons, Option.map_some,
      Option.toList_some]
    constructor
    · intro hle
      rw [if_neg (by omega), List.length_map, List.length_take]
      omega
    · intro hlt
      rw [if_pos (by omega)]

/-- The first of the pool's most similar experts has another role than the forced one. -/
def TopElsewhere (router : CosineRouter R) (sim : Expert σ → R) (pool : List (Expert σ)) : Prop :=
  ∃ l e r, pool = l ++ e :: r ∧ (∀ x ∈ l, sim x < sim e) ∧ (∀ x ∈ r, sim x ≤ sim e) ∧
    e.role ≠ router.forceLastRole

/-- The most similar expert has another role than the forced one. -/
theorem top_iff (router : CosineRouter R) (sim : Expert σ → R) {pool : List (Expert σ)}
    (hnd : (pool.map (·.name)).Nodup) :
    (∃ n ∈ (rank (·.1) (pool.map fun e => (sim e, e))).head?.map (·.2.name),
        n ∉ lastRoleNames pool router.forceLastRole) ↔ router.TopElsewhere sim pool := by
  simp only [Option.mem_def, Option.map_eq_some_iff, head?_rank_eq_some_iff]
  constructor
  · rintro ⟨_, ⟨⟨_, e⟩, ⟨l, r, hsplit, hl, hr⟩, rfl⟩, hrole⟩
    obtain ⟨l', r', rfl, rfl, hcons⟩ := List.map_eq_append_iff.mp hsplit
    obtain ⟨e', r'', rfl, he', rfl⟩ := List.map_eq_cons_iff.mp hcons
    cases he'
    have he : e ∈ l' ++ e :: r'' := by simp
    rw [name_mem_lastRoleNames hnd he] at hrole
    exact ⟨l', e, r'', rfl, by simpa using hl, by simpa using hr, hrole⟩
  · rintro ⟨l, e, r, rfl, hl, hr, hrole⟩
    have he : e ∈ l ++ e :: r := by simp
    refine ⟨e.name, ⟨(sim e, e), ⟨l.map fun e => (sim e, e), r.map fun e => (sim e, e), by simp,
      by simpa using hl, by simpa using hr⟩, rfl⟩, ?_⟩
    rwa [name_mem_lastRoleNames hnd he]

variable [Hashlib] [Numpy R]

/-- A route reaches the minimum where enough experts pass, or the forced role makes up for it. -/
theorem route_honours_iff {router : CosineRouter R} {a m : ℕ} (hone : 1 ≤ a) (ham : a ≤ m)
    (hmin : router.minActivation = a) (hmax : router.maxActivation = m) {prompt : String}
    {pool : List (Expert σ)} (hnd : (pool.map (·.name)).Nodup) (hne : pool ≠ [])
    {protos protos' : Prototypes R} {names : List String}
    (h : router.route prompt pool protos = .ok names protos') :
    let sim : Expert σ → R := router.similarityOf protos prompt
    let c := pool.countP (router.threshold ≤ sim ·)
    (a ≤ names.length ∧ (c < a → c ≤ names.length)) ↔
      a ≤ c ∨ a = 1 ∨ a = 2 ∧ (∃ e ∈ pool, e.role = router.forceLastRole) ∧
        router.TopElsewhere sim pool := by
  intro sim c
  obtain ⟨-, missing, hmissing, rfl⟩ := route_eq_ok hnd hne h
  have hcount :
      (rank (·.1) (pool.map fun e => (sim e, e))).countP (router.threshold ≤ ·.1) = c := by
    rw [(rank_perm ..).countP_eq, List.countP_map]
    rfl
  obtain ⟨hfull, hshort⟩ := select_spec ham hmin hmax
    (rank_desc (·.1) (pool.map fun e => (sim e, e)))
  rw [hcount] at hfull hshort
  rw [hmax]
  rw [honoured_iff hone ham hne (length_finish
    (router.chosen_select ((chosen_scored hnd _).perm ((rank_perm ..).map _))) (by omega)
    hmissing) hfull hshort, router.top_iff sim hnd]

end CosineRouter

/-! ## Both routers -/

namespace AnyRouter

variable [PyFloat R] [Unicode] [Hashlib] [Numpy R]

/-- The number of candidates that pass the threshold: roles for the logistic router, experts for the
cosine router. -/
def passed (r : AnyRouter R) (prompt : String) (pool : List (Expert σ)) : ℕ :=
  match r with
  | logistic router => (router.passedRoles prompt pool).length
  | cosine router protos => pool.countP (router.threshold ≤ router.similarityOf protos prompt ·)

/-- The candidate that replaces a selection that is too small leaves the forced role to be added:
the one role that passes is another, or the most similar expert has another. -/
def LeavesRoom (r : AnyRouter R) (prompt : String) (pool : List (Expert σ)) : Prop :=
  match r with
  | logistic router => (router.passedRoles prompt pool).length = 1 ∧
      router.forceLastRole ∉ router.passedRoles prompt pool
  | cosine router protos => router.TopElsewhere (router.similarityOf protos prompt) pool

/-- A route honours the minimum if and only if as many candidates pass the threshold, or the minimum
is one, or it is two and the replacement and the forced role make two. -/
theorem min_honoured_iff (r : AnyRouter R) (prompt : String) (pool : List (Expert σ))
    (hnd : (pool.map (·.name)).Nodup) (hone : 1 ≤ r.minActivation)
    (hmin : r.minActivation ≤ r.maxActivation)
    (hroles : r.minActivation ≤ (pool.map (·.role)).dedup.length) (names : List String)
    (h : r.route prompt pool = .ok names) :
    (r.minActivation ≤ names.length ∧
        (r.passed prompt pool < r.minActivation → r.passed prompt pool ≤ names.length)) ↔
      r.minActivation ≤ r.passed prompt pool ∨ r.minActivation = 1 ∨
        r.minActivation = 2 ∧ (∃ e ∈ pool, e.role = r.forceLastRole) ∧ r.LeavesRoom prompt pool := by
  obtain ⟨a, ha⟩ : ∃ a : ℕ, r.minActivation = a := ⟨_, (Int.toNat_of_nonneg (by omega)).symm⟩
  obtain ⟨m, hm⟩ : ∃ m : ℕ, r.maxActivation = m := ⟨_, (Int.toNat_of_nonneg (by omega)).symm⟩
  have hne : pool ≠ [] := by
    rintro rfl
    simp only [List.map_nil, List.dedup_nil, List.length_nil] at hroles
    omega
  rw [ha] at hone hmin ⊢
  rw [hm] at hmin
  have hone' : 1 ≤ a := by omega
  have hmin' : a ≤ m := by omega
  have hcast : (a : ℤ) = 1 ↔ a = 1 := by omega
  have hcast' : (a : ℤ) = 2 ↔ a = 2 := by omega
  simp only [Int.ofNat_le, Int.ofNat_lt, hcast, hcast']
  cases r with
  | logistic router => exact router.route_honours_iff hone' hmin' ha hm hnd hne h
  | cosine router protos =>
    exact router.route_honours_iff hone' hmin' ha hm hnd hne (eq_ok_of_outcome h)

end AnyRouter

/-- An analyst, a synthesizer and a coder. -/
def trio : List (Expert Unit) := analystFirst ++ [⟨"c", .coder, Script.backend {}, ""⟩]

/-- A logistic router that the analyst and the synthesizer pass, with a minimum. -/
def demanding (minActivation : ℤ) : AnyRouter ℚ :=
  .logistic { evenLogistic 3 with minActivation }

/-- A pool in which two experts pass. -/
theorem AnyRouter.min_honoured_two :
    letI := PyFloat.rat
    letI := Numpy.rat
    letI := Unicode.ascii
    letI := Hashlib.zeros
    (demanding 2).route "p" trio = .ok ["a", "b"] ∧
      ((2 ≤ (["a", "b"].length : ℤ) ∧ (((demanding 2).passed "p" trio : ℤ) < 2 →
          (demanding 2).passed "p" trio ≤ ["a", "b"].length)) ↔
        (2 : ℤ) ≤ (demanding 2).passed "p" trio ∨ (2 : ℤ) = 1 ∨
          (2 : ℤ) = 2 ∧ (∃ e ∈ trio, e.role = .synthesizer) ∧ (demanding 2).LeavesRoom "p" trio) := by
  let _ := PyFloat.rat
  let _ := Numpy.rat
  let _ := Unicode.ascii
  let _ := Hashlib.zeros
  have hroute : (demanding 2).route "p" trio = .ok ["a", "b"] := by decide +kernel
  exact ⟨hroute, min_honoured_iff (demanding 2) "p" trio (by decide) (by decide) (by decide)
    (by decide) ["a", "b"] hroute⟩

/-- Three roles, a minimum of three, and two names: what passed is given up for the best. -/
theorem AnyRouter.min_missed :
    letI := PyFloat.rat
    letI := Numpy.rat
    letI := Unicode.ascii
    letI := Hashlib.zeros
    (trio.map (·.name)).Nodup ∧ (trio.map (·.role)).dedup.length = 3 ∧
      (demanding 3).maxActivation = 3 ∧ (demanding 3).route "p" trio = .ok ["a", "b"] ∧
      ¬ (demanding 3).minActivation ≤ ["a", "b"].length :=
  ⟨by decide, by decide, rfl, by decide +kernel, by decide⟩

end Chen
