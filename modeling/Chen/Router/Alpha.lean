import Chen.Router.ActivationCap

/-!
# The weight of the two routers

The hybrid router is built with a weight `alpha` for the scores of its logistic router against those
of its cosine router. A route never reads it: whatever the weight, it merges the two selections. It
is compared here with the selection that the weights one and zero stand for.
-/

namespace Chen

open Effect Ranking
open PyFloat (lit)

variable {σ R : Type}

/-! ## One expert of the forced role -/

section Logistic

variable {pool : List (Expert σ)} {role : ExpertRole} {selected : List String}

/-- At most one name of the role is selected. -/
def AtMostOne (pool : List (Expert σ)) (role : ExpertRole) (names : List String) : Prop :=
  names.countP (lastRoleNames pool role).contains ≤ 1

/-- Fewer names have no more of the role. -/
theorem AtMostOne.sublist {names : List String} (h : AtMostOne pool role selected)
    (hsub : names.Sublist selected) : AtMostOne pool role names :=
  hsub.countP_le.trans h

/-- One name has at most one of the role. -/
theorem AtMostOne.singleton (n : String) : AtMostOne pool role [n] :=
  List.countP_le_length

/-- The fallback adds at most one name. -/
theorem AtMostOne.absoluteFallback (h : AtMostOne pool role selected) :
    AtMostOne pool role (absoluteFallback pool role selected) := by
  rw [Chen.absoluteFallback]
  split
  · split
    · exact .singleton _
    · cases pool.head? with
      | none => exact Nat.zero_le 1
      | some e => exact .singleton e.name
  · exact h

/-- The role is appended only where it is missing. -/
theorem AtMostOne.appendLastRole (h : AtMostOne pool role selected) {missing : Bool}
    (hmissing : missing = true → ∀ n ∈ selected, n ∉ lastRoleNames pool role) :
    AtMostOne pool role (appendLastRole pool role missing selected) := by
  rw [Chen.appendLastRole]
  split
  case isFalse => exact h
  case isTrue htrue =>
    have hnone : selected.countP (lastRoleNames pool role).contains = 0 := by
      rw [List.countP_eq_zero]
      intro n hn
      simpa using hmissing htrue n hn
    split
    · rw [AtMostOne, List.countP_append, hnone, Nat.zero_add]
      exact AtMostOne.singleton _
    · exact h

/-- Moving the role to the end adds none. -/
theorem AtMostOne.moveLastRole (h : AtMostOne pool role selected) (hnd : selected.Nodup) :
    AtMostOne pool role (moveLastRole pool role selected) := by
  rw [AtMostOne, (moveLastRole_perm pool role hnd).countP_eq]
  exact h

/-- Two names of the role are one. -/
theorem AtMostOne.unique (h : AtMostOne pool role selected) {a b : String} (ha : a ∈ selected)
    (hb : b ∈ selected) (harole : a ∈ lastRoleNames pool role)
    (hbrole : b ∈ lastRoleNames pool role) : a = b := by
  have hmem : ∀ {n}, n ∈ selected → n ∈ lastRoleNames pool role →
      n ∈ selected.filter (lastRoleNames pool role).contains := fun hn hrole =>
    List.mem_filter.mpr ⟨hn, by simpa using hrole⟩
  have ha' := hmem ha harole
  have hb' := hmem hb hbrole
  rw [AtMostOne, List.countP_eq_length_filter] at h
  match selected.filter (lastRoleNames pool role).contains, h, ha', hb' with
  | [x], _, ha', hb' => rw [List.mem_singleton.mp ha', List.mem_singleton.mp hb']

/-- Of a selection without a second one, an expert of the role in the last place is the first. -/
theorem AtMostOne.front {front : List String} {z : String}
    (h : AtMostOne pool role (front ++ [z])) (hz : z ∈ lastRoleNames pool role) :
    ∀ n ∈ front, n ∉ lastRoleNames pool role := by
  rw [AtMostOne, List.countP_append, List.countP_singleton, if_pos (by simpa using hz)] at h
  have hzero : front.countP (lastRoleNames pool role).contains = 0 := by omega
  intro n hn
  simpa using List.countP_eq_zero.mp hzero n hn

end Logistic

namespace LogisticRouter

variable [PyFloat R]

/-- The ranked experts have a role each. -/
theorem atMostOne_ranked (router : LogisticRouter R) (scores : Dict String R)
    {pool : List (Expert σ)} (hnd : (pool.map (·.name)).Nodup) (role : ExpertRole) :
    AtMostOne pool role ((router.ranked scores pool).map (·.2.name)) := by
  have hbest := isRoleBest_roleBest scores pool
  have hall : AtMostOne pool role (((roleBest scores pool).map (·.2)).map (·.2.name)) := by
    have hroles : ((roleBest scores pool).map (·.2.2.role)).count role ≤ 1 :=
      List.nodup_iff_count_le_one.mp (nodup_of_pairwise_earlier hbest.order) role
    rw [List.count_eq_countP, List.countP_map] at hroles
    rw [AtMostOne, List.map_map, List.countP_map]
    refine le_of_eq_of_le (List.countP_congr fun p hp => ?_) hroles
    have hrole : p.2.2.name ∈ lastRoleNames pool role ↔ p.2.2.role = role :=
      name_mem_lastRoleNames hnd (hbest.sound p hp).1
    simpa using hrole
  have hperm : (router.ranked scores pool).Perm
      (((roleBest scores pool).map (·.2)).filter (router.threshold ≤ ·.1)) := rank_perm ..
  rw [AtMostOne, (hperm.map (·.2.name)).countP_eq]
  exact hall.sublist (List.filter_sublist.map _)

omit [PyFloat R] in
/-- The logistic selection keeps to one name of the role if the ranking does. -/
theorem atMostOne_select (router : LogisticRouter R) {pool : List (Expert σ)} {role : ExpertRole}
    {ranked : List (R × Expert σ)} (h : AtMostOne pool role (ranked.map (·.2.name))) :
    AtMostOne pool role (router.select ranked) := by
  have hslice : AtMostOne pool role ((sliceTo ranked router.maxActivation).map (·.2.name)) :=
    h.sublist ((sliceTo_sublist ..).map _)
  cases ranked with
  | nil => exact hslice
  | cons best rest =>
    rw [select]
    split
    case isTrue => exact .singleton _
    case isFalse => exact hslice

/-- A route selects at most one expert of the forced role. -/
theorem route_atMostOne [Unicode] {router : LogisticRouter R} {prompt : String}
    {pool : List (Expert σ)} (hnd : (pool.map (·.name)).Nodup) {names : List String}
    (h : router.route prompt pool = .ok names) : AtMostOne pool router.forceLastRole names := by
  rw [route] at h
  split at h
  case isTrue =>
    cases h
    exact Nat.zero_le 1
  case isFalse =>
    cases hscores : router.score prompt with
    | error x =>
      rw [hscores] at h
      cases h
    | ok scores =>
      rw [hscores] at h
      cases h
      have hselected := router.atMostOne_select
        (router.atMostOne_ranked scores hnd router.forceLastRole)
      have hchosen := (router.chosen_select (router.chosen_ranked scores hnd)).absoluteFallback
        router.forceLastRole
      refine AtMostOne.sublist (AtMostOne.moveLastRole ?_ ?_) (capActivation_sublist _)
      · exact hselected.absoluteFallback.appendLastRole (by simp [expertRoleName_eq_value hnd])
      · exact (hchosen.appendLastRole _ _).nodup

end LogisticRouter

/-! ## Merging two selections -/

/-- A list of at most `k` is the first `k` of what extends it if it is full or nothing is added. -/
theorem take_append_eq_left_iff {α : Type} {k : ℕ} {front rest : List α} (hlen : front.length ≤ k) :
    (front ++ rest).take k = front ↔ front.length = k ∨ rest = [] := by
  constructor
  · intro h
    have hlength := congrArg List.length h
    rw [List.length_take, List.length_append] at hlength
    by_cases hfull : front.length = k
    · exact .inl hfull
    · exact .inr (List.length_eq_zero_iff.mp (by omega))
  · rintro (rfl | rfl)
    · exact List.take_left' rfl
    · rw [List.append_nil, List.take_of_length_le hlen]

/-- The first two of `xs ++ ys` are `front`, where `ys` is what `front` has beyond `xs` in some
order: `front` begins like `xs`, and no order is left to choose. -/
theorem take_two_append_eq_iff {xs ys front : List String} (hlen : front.length ≤ 2)
    (hnd : front.Nodup) (hperm : ys.Perm (front.filter (· ∉ xs))) :
    (xs ++ ys).take 2 = front ↔ xs.take 2 <+: front ∧ (xs = [] → ys = front) := by
  match xs with
  | [] =>
    have hys : ys.length ≤ 2 := by
      rw [hperm.length_eq]
      exact (List.length_filter_le ..).trans hlen
    simp [List.take_of_length_le hys]
  | [a] =>
    constructor
    · rintro rfl
      exact ⟨⟨ys.take 1, rfl⟩, nofun⟩
    · rintro ⟨⟨t, rfl⟩, -⟩
      have hnew : a ∉ t := (List.nodup_cons.mp hnd).1
      have ht : t.length ≤ 1 := by simpa using hlen
      have hys : ys.Perm t := by
        refine hperm.trans (.of_eq ?_)
        rw [List.take_of_length_le (by simp), List.singleton_append,
          List.filter_cons_of_neg (by simp), List.filter_eq_self]
        intro n hn
        have hne : n ≠ a := fun heq => hnew (heq ▸ hn)
        simpa using hne
      match t, ht with
      | [], _ => rw [hys.eq_nil]; rfl
      | [b], _ => rw [List.perm_singleton.mp hys]; rfl
  | a :: b :: rest =>
    constructor
    · rintro rfl
      exact ⟨List.prefix_rfl, nofun⟩
    · rintro ⟨⟨t, rfl⟩, -⟩
      obtain rfl : t = [] := by simpa using hlen
      rfl

namespace HybridRouter

variable {router : HybridRouter R} {pool : List (Expert σ)} {l c front : List String} {z : String}

/-- With three slots, two are left beside the last one. -/
theorem fillSlots_eq (hmax : router.maxActivation = 3) {ordered : List String} {last : String}
    (hlast : lastSlot pool router.forceLastRole ordered = some last) :
    router.fillSlots pool ordered = (ordered.filter (· ≠ last)).take 2 ++ [last] := by
  have hmem := lastSlot_mem hlast
  have hne : ¬(lastRoleNames pool router.forceLastRole).isEmpty := by
    simpa using List.ne_nil_of_mem hmem
  rw [fillSlots, if_neg hne, hlast]
  simp only [hmax]
  rfl

/-- In a list without repetition, the last name is not in front. -/
theorem notMem_front (h : (front ++ [z]).Nodup) : z ∉ front := fun hz =>
  List.disjoint_of_nodup_append h hz (List.mem_singleton_self z)

/-- A logistic selection that ends with the forced role is the merged one if it fills the slots or
the cosine router adds nothing to it. -/
theorem merge_eq_left_iff (hmax : router.maxActivation = 3) (setOrder : SetOrder)
    (hone : AtMostOne pool router.forceLastRole (front ++ [z])) (hnd : (front ++ [z]).Nodup)
    (hc : c.Nodup) (hz : z ∈ lastRoleNames pool router.forceLastRole)
    (hlen : (front ++ [z]).length ≤ 3) :
    router.merge setOrder pool (front ++ [z]) c = front ++ [z] ↔
      (front ++ [z]).length = 3 ∨ c ⊆ front ++ [z] := by
  obtain ⟨p, hperm, horder⟩ := order_union setOrder (front ++ [z]) hc
  have hp : ∀ n ∈ p, n ∉ front ++ [z] := fun n hn => by
    simpa using (List.mem_filter.mp (hperm.mem_iff.mp hn)).2
  have hfront : z ∉ front := notMem_front hnd
  have hlast : lastSlot pool router.forceLastRole (front ++ [z] ++ p) = some z := by
    have hnone : front.find? (lastRoleNames pool router.forceLastRole).contains = none := by
      rw [List.find?_eq_none]
      intro n hn
      simpa using hone.front hz n hn
    rw [lastSlot, List.append_assoc, List.find?_append, hnone]
    simp [hz]
  have hothers : (front ++ [z] ++ p).filter (· ≠ z) = front ++ p := by
    rw [List.filter_append, List.filter_append, filter_ne_of_notMem hfront,
      filter_ne_of_notMem fun h => hp z h (by simp)]
    simp
  have hadds : p = [] ↔ c ⊆ front ++ [z] := by
    rw [← List.length_eq_zero_iff, hperm.length_eq, List.length_eq_zero_iff, cosineOnly,
      List.filter_eq_nil_iff]
    simp [List.subset_def, or_iff_not_imp_left]
  rw [List.length_append, List.length_singleton] at hlen ⊢
  rw [merge_eq_fillSlots _ _ _ (.inl (by simp)), horder, fillSlots_eq hmax hlast, hothers,
    List.append_left_inj, take_append_eq_left_iff (by omega), hadds]
  exact or_congr_left (by omega)

/-- The logistic selection begins like the cosine selection `front ++ [z]` and has no other expert
of the forced role, and where something is left to the order of the set, the order is that of
`front` and has `z` before the others of the role. -/
structure Agrees (setOrder : SetOrder) (pool : List (Expert σ)) (role : ExpertRole)
    (l front : List String) (z : String) : Prop where
  last : z ∈ l ∨ (∀ n ∈ l, n ∉ lastRoleNames pool role) ∧
    (setOrder.list (l ++ (front ++ [z]))).find? (lastRoleNames pool role).contains = some z
  first : (l.filter (· ≠ z)).take 2 <+: front
  rest : l = [z] → (setOrder.list (l ++ (front ++ [z]))).filter (· ≠ z) = front

/-- The names of the first selection come first, those of the second alone behind them. -/
theorem order_eq (setOrder : SetOrder) (l c : List String) :
    order l (setOrder.list (l ++ c)) =
      l ++ (setOrder.list (l ++ c)).filter fun n => !l.contains n := by
  rw [order, List.filter_eq_self.mpr]
  intro n hn
  simpa using setOrder.mem_list.mpr (List.mem_append_left c hn)

/-- The expert for the last slot is `z` if it is the logistic router's, or there is none and the set
has it first. -/
theorem lastSlot_eq_iff (setOrder : SetOrder) {role : ExpertRole} (hone : AtMostOne pool role l)
    (hz : z ∈ lastRoleNames pool role) (hzc : z ∈ c) :
    lastSlot pool role (order l (setOrder.list (l ++ c))) = some z ↔
      z ∈ l ∨ (∀ n ∈ l, n ∉ lastRoleNames pool role) ∧
        (setOrder.list (l ++ c)).find? (lastRoleNames pool role).contains = some z := by
  rw [lastSlot, order_eq, List.find?_append]
  by_cases hnone : ∀ n ∈ l, n ∉ lastRoleNames pool role
  · have hfind : l.find? (lastRoleNames pool role).contains = none := by
      rw [List.find?_eq_none]
      simpa using hnone
    have hset : ((setOrder.list (l ++ c)).filter fun n => !l.contains n).find?
        (lastRoleNames pool role).contains =
        (setOrder.list (l ++ c)).find? (lastRoleNames pool role).contains := by
      rw [List.find?_filter]
      congr 1
      funext n
      by_cases hrole : n ∈ lastRoleNames pool role
      · have hn : n ∉ l := fun h => hnone n h hrole
        simp [hrole, hn]
      · simp [hrole]
    have hzl : z ∉ l := fun h => hnone z h hz
    rw [hfind, Option.none_or, hset]
    cases hfirst : (setOrder.list (l ++ c)).find? (lastRoleNames pool role).contains with
    | none =>
      have hzset : z ∈ setOrder.list (l ++ c) :=
        setOrder.mem_list.mpr (List.mem_append_right l hzc)
      exact absurd hz (by simpa using List.find?_eq_none.mp hfirst z hzset)
    | some y => rw [or_iff_right hzl, and_iff_right hnone]
  · obtain ⟨y, hy, hyrole⟩ : ∃ y ∈ l, y ∈ lastRoleNames pool role := by simpa using hnone
    obtain ⟨x, hx⟩ : ∃ x, l.find? (lastRoleNames pool role).contains = some x :=
      Option.isSome_iff_exists.mp (List.find?_isSome.mpr ⟨y, hy, by simpa using hyrole⟩)
    have hxl := List.mem_of_find?_eq_some hx
    have hxrole : x ∈ lastRoleNames pool role := by simpa using List.find?_some hx
    rw [hx, Option.some_or, or_iff_left fun h => hnone h.1]
    constructor
    · rintro ⟨⟩
      exact hxl
    · exact fun hzl => congrArg some (hone.unique hxl hzl hxrole hz)

/-- What is left beside `z` fills the slots in front with `front` if the logistic selection begins
so and, where it has nothing else to give, the set has the order of `front`. -/
theorem front_eq_iff (setOrder : SetOrder) (hl : l.Nodup) (hne : l ≠ [])
    (hc : (front ++ [z]).Nodup) (hlen : front.length ≤ 2) :
    ((order l (setOrder.list (l ++ (front ++ [z])))).filter (· ≠ z)).take 2 = front ↔
      (l.filter (· ≠ z)).take 2 <+: front ∧
        (l = [z] → (setOrder.list (l ++ (front ++ [z]))).filter (· ≠ z) = front) := by
  obtain ⟨p, hperm, horder⟩ := order_union setOrder l hc
  have hfront : z ∉ front := notMem_front hc
  have hadded : (p.filter (· ≠ z)).Perm (front.filter (· ∉ l.filter (· ≠ z))) := by
    refine (hperm.filter _).trans (.of_eq ?_)
    rw [cosineOnly, List.filter_filter, List.filter_append,
      List.filter_cons_of_neg (l := []) (by simp), List.filter_nil, List.append_nil]
    refine List.filter_congr fun n hn => ?_
    have hne : n ≠ z := fun heq => hfront (heq ▸ hn)
    simp [hne]
  have hall : l.filter (· ≠ z) = [] ↔ l = [z] := by
    rw [filter_ne_eq_erase hl, List.erase_eq_nil_iff, or_iff_right hne]
  rw [horder, List.filter_append, take_two_append_eq_iff hlen (List.nodup_append.mp hc).1 hadded,
    hall]
  refine and_congr_right fun _ => forall_congr' fun heq => ?_
  -- only `z` is selected already, so that the set gives everything else
  have hp : p = (setOrder.list (l ++ (front ++ [z]))).filter fun n => !l.contains n :=
    List.append_cancel_left (horder.symm.trans (order_eq ..))
  rw [hp, List.filter_filter]
  refine Eq.congr_left (List.filter_congr fun n _ => ?_)
  simp [heq]

/-- A cosine selection that ends with the forced role is the merged one if the logistic selection
agrees with it. -/
theorem merge_eq_right_iff (hmax : router.maxActivation = 3) (setOrder : SetOrder)
    (hone : AtMostOne pool router.forceLastRole l) (hl : l.Nodup) (hne : l ≠ [])
    (hc : (front ++ [z]).Nodup) (hz : z ∈ lastRoleNames pool router.forceLastRole)
    (hlen : (front ++ [z]).length ≤ 3) :
    router.merge setOrder pool l (front ++ [z]) = front ++ [z] ↔
      Agrees setOrder pool router.forceLastRole l front z := by
  have hex : ∃ e ∈ pool, e.role = router.forceLastRole := by
    obtain ⟨e, he, hrole, -⟩ := mem_lastRoleNames.mp hz
    exact ⟨e, he, hrole⟩
  obtain ⟨last, hlast⟩ := exists_lastSlot hex (order l (setOrder.list (l ++ (front ++ [z]))))
  have hslot := lastSlot_eq_iff setOrder hone hz (List.mem_append_right front
    (List.mem_singleton_self z))
  rw [hlast, Option.some.injEq] at hslot
  rw [merge_eq_fillSlots _ _ _ (.inl hne), fillSlots_eq hmax hlast, List.append_singleton_inj]
  have hthose := front_eq_iff setOrder hl hne hc (by
    rw [List.length_append, List.length_singleton] at hlen
    omega)
  constructor
  · rintro ⟨htake, rfl⟩
    have hthese := hthose.mp htake
    exact ⟨hslot.mp rfl, hthese.1, hthese.2⟩
  · rintro ⟨hz', hfirst, hrest⟩
    obtain rfl := hslot.mpr hz'
    exact ⟨hthose.mpr ⟨hfirst, hrest⟩, rfl⟩

variable [PyFloat R] [Hashlib] [Numpy R] [Unicode]

/-- No route reads the weight. -/
theorem route_alpha (router : HybridRouter R) (alpha : R) (setOrder : SetOrder) (prompt : String)
    (pool : List (Expert σ)) :
    ({ router with alpha } : HybridRouter R).route setOrder prompt pool =
      router.route setOrder prompt pool := rfl

/-- Built with any weight, be it one, the hybrid router returns a logistic selection that ends with
the forced role and respects the cap if and only if it fills the cap or the cosine router adds
nothing; and, be the weight zero, it returns such a cosine selection if and only if the logistic
selection agrees with it. -/
theorem route_built_iff (alpha : R) (setOrder : SetOrder) (pool : List (Expert σ))
    (hnd : (pool.map (·.name)).Nodup) (prompt : String) (router : HybridRouter R)
    (protos protos' : Prototypes R)
    (hbuild : fromExperts pool alpha 1 3 .synthesizer [] = .ok router protos) (l c : List String)
    (hl : router.logistic.route prompt pool = .ok l)
    (hc : router.cosine.route prompt pool protos = .ok c protos') :
    (EndsWithRole pool .synthesizer l → l.length ≤ 3 →
      (router.route setOrder prompt pool protos = .ok l protos' ↔ l.length = 3 ∨ c ⊆ l)) ∧
    ∀ front z, c = front ++ [z] → z ∈ lastRoleNames pool .synthesizer → c.length ≤ 3 →
      (router.route setOrder prompt pool protos = .ok c protos' ↔
        Agrees setOrder pool .synthesizer l front z) := by
  obtain rfl := fromExperts_eq_ok hbuild
  have hone : AtMostOne pool .synthesizer l := LogisticRouter.route_atMostOne hnd hl
  have hlchosen := LogisticRouter.route_chosen hnd hl
  have hcchosen := CosineRouter.route_chosen hnd hc
  have hroute : ∀ names, (create .create .create alpha : HybridRouter R).route setOrder prompt pool
      protos = .ok names protos' ↔
        (create .create .create alpha : HybridRouter R).merge setOrder pool l c = names := by
    intro names
    rw [route_eq_ok]
    constructor
    · rintro ⟨l', c', hl', hc', rfl⟩
      cases hl.symm.trans hl'
      cases hc.symm.trans hc'
      rfl
    · exact fun h => ⟨l, c, hl, hc, h.symm⟩
  constructor
  · rintro ⟨z, hlast, hz⟩ hlen
    obtain ⟨front, rfl⟩ := List.getLast?_eq_some_iff.mp hlast
    rw [hroute]
    exact merge_eq_left_iff rfl setOrder hone hlchosen.nodup hcchosen.nodup hz hlen
  · rintro front z rfl hz hlen
    have hne : pool ≠ [] := by
      rintro rfl
      cases hz
    have hlne : l ≠ [] := fun hnil =>
      hne ((LogisticRouter.route_proper (show (1 : ℤ) ≤ 3 by decide) hnd hl).nil_iff.mp hnil)
    rw [hroute]
    exact merge_eq_right_iff rfl setOrder hone hlchosen.nodup hlne hcchosen.nodup hz hlen

end HybridRouter

/-- A router, which the logistic router has no weights for, and a synthesizer. -/
def routerFirst : List (Expert Unit) :=
  [⟨"a", .router, Script.backend {}, ""⟩, ⟨"s", .synthesizer, Script.backend {}, ""⟩]

/-- For the prompt "router" both are similar to it, and only the synthesizer has a score. -/
theorem routerFirst_runs :
    letI := PyFloat.rat
    letI := Numpy.rat
    letI := Unicode.ascii
    letI := Hashlib.ones
    ∃ router protos protos',
      HybridRouter.fromExperts routerFirst (1 : ℚ) 1 3 .synthesizer [] = .ok router protos ∧
      router.logistic.route "router" routerFirst = .ok ["s"] ∧
      router.cosine.route "router" routerFirst protos = .ok ["a", "s"] protos' ∧
      router.route .insertion "router" routerFirst protos = .ok ["a", "s"] protos' := by
  let _ := PyFloat.rat
  let _ := Numpy.rat
  let _ := Unicode.ascii
  let _ := Hashlib.ones
  have hlogistic : (LogisticRouter.create : LogisticRouter ℚ).route "router" routerFirst =
      .ok ["s"] := by
    decide +kernel
  have hcosine : outcome ((do
      let router ← HybridRouter.fromExperts routerFirst (1 : ℚ) 1 3 .synthesizer
      router.cosine.route "router" routerFirst) []) = .ok ["a", "s"] := by
    decide +kernel
  obtain ⟨router, protos, hbuild, hc⟩ := bind_eq_ok.mp (eq_ok_of_outcome hcosine)
  obtain rfl := HybridRouter.fromExperts_eq_ok hbuild
  refine ⟨_, protos, _, hbuild, hlogistic, hc, ?_⟩
  exact HybridRouter.route_eq_ok.mpr ⟨["s"], ["a", "s"], hlogistic, hc, by decide⟩

/-- A routed pair of experts. -/
theorem HybridRouter.route_built_two :
    letI := PyFloat.rat
    letI := Numpy.rat
    letI := Unicode.ascii
    letI := Hashlib.ones
    ∃ (router : HybridRouter ℚ) (protos protos' : Prototypes ℚ),
      (EndsWithRole routerFirst .synthesizer ["s"] → ["s"].length ≤ 3 →
        (router.route .insertion "router" routerFirst protos = .ok ["s"] protos' ↔
          ["s"].length = 3 ∨ ["a", "s"] ⊆ ["s"])) ∧
      ∀ front z, ["a", "s"] = front ++ [z] → z ∈ lastRoleNames routerFirst .synthesizer →
        ["a", "s"].length ≤ 3 →
          (router.route .insertion "router" routerFirst protos = .ok ["a", "s"] protos' ↔
            Agrees .insertion routerFirst .synthesizer ["s"] front z) := by
  let _ := PyFloat.rat
  let _ := Numpy.rat
  let _ := Unicode.ascii
  let _ := Hashlib.ones
  obtain ⟨router, protos, protos', hbuild, hl, hc, -⟩ := routerFirst_runs
  exact ⟨router, protos, protos', route_built_iff 1 .insertion routerFirst (by decide) "router"
    router protos protos' hbuild ["s"] ["a", "s"] hl hc⟩

/-- With all the weight on the logistic router, which selects the synthesizer alone, the cosine
router's other expert is selected as well. -/
theorem HybridRouter.weight_one_ignored :
    letI := PyFloat.rat
    letI := Numpy.rat
    letI := Unicode.ascii
    letI := Hashlib.ones
    ∃ router protos protos',
      HybridRouter.fromExperts routerFirst (1 : ℚ) 1 3 .synthesizer [] = .ok router protos ∧
      router.alpha = 1 ∧ router.logistic.route "router" routerFirst = .ok ["s"] ∧
      EndsWithRole routerFirst .synthesizer ["s"] ∧
      router.route .insertion "router" routerFirst protos = .ok ["a", "s"] protos' := by
  let _ := PyFloat.rat
  let _ := Numpy.rat
  let _ := Unicode.ascii
  let _ := Hashlib.ones
  obtain ⟨router, protos, protos', hbuild, hl, -, hroute⟩ := routerFirst_runs
  refine ⟨router, protos, protos', hbuild, ?_, hl, ⟨"s", rfl, by decide⟩, hroute⟩
  rw [fromExperts_eq_ok hbuild]
  rfl

end Chen
