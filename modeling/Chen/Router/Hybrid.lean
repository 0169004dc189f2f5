import Chen.Router.Cosine
import Chen.Router.Logistic

/-!
# The hybrid router

The names that a logistic and a cosine router select, the logistic router's first. They meet in a
set, so the order in which a run enumerates its sets is a parameter.
-/

namespace Chen

open Effect

/-- How a run of the interpreter enumerates its sets of strings. It depends on the seed of the
string hash. -/
structure SetOrder where
  /-- `list(s)`, for the set `s` of the given members. -/
  list : List String → List String
  nodup_list : ∀ members, (list members).Nodup
  mem_list : ∀ {members n}, n ∈ list members ↔ n ∈ members

/-- The order in which the members were added. -/
def SetOrder.insertion : SetOrder where
  list members := (members.reverse.dedup).reverse
  nodup_list members := List.nodup_reverse.mpr (List.nodup_dedup _)
  mem_list := by simp

/-- The opposite order. -/
def SetOrder.latest : SetOrder where
  list members := members.reverse.dedup
  nodup_list members := List.nodup_dedup _
  mem_list := by simp

/-- Any order that is given for one set. -/
def SetOrder.given (members enumeration : List String) (hnd : enumeration.Nodup)
    (hmem : ∀ n, n ∈ enumeration ↔ n ∈ members) : SetOrder where
  list xs := if xs = members then enumeration else xs.dedup
  nodup_list xs := by split <;> [exact hnd; exact List.nodup_dedup xs]
  mem_list := by
    intro xs n
    split
    case isTrue heq => rw [hmem, heq]
    case isFalse => exact List.mem_dedup

/-- A set is empty if and only if it has no members. -/
theorem SetOrder.list_eq_nil {setOrder : SetOrder} {members : List String} :
    setOrder.list members = [] ↔ members = [] := by
  simp only [List.eq_nil_iff_forall_not_mem, setOrder.mem_list]

/-- `HybridRouter`. -/
structure HybridRouter (R : Type) where
  logistic : LogisticRouter R
  cosine : CosineRouter R
  alpha : R
  minActivation : ℤ := 1
  maxActivation : ℤ := 3
  forceLastRole : ExpertRole := .synthesizer

namespace HybridRouter

variable {σ R : Type} [PyFloat R]

open PyFloat (lit)

/-- The constructor. -/
def create (logistic : LogisticRouter R := .create) (cosine : CosineRouter R := .create)
    (alpha : R := lit (6 / 10)) (minActivation : ℤ := 1) (maxActivation : ℤ := 3)
    (forceLastRole : ExpertRole := .synthesizer) : HybridRouter R :=
  { logistic, cosine, alpha, minActivation, maxActivation, forceLastRole }

/-- The logistic selection, then what only the other router selected, in the order of the set. -/
def order (lOrder union : List String) : List String :=
  lOrder.filter union.contains ++ union.filter fun n => !lOrder.contains n

/-- The expert that is to fill the last slot: the first of the forced role in the selection, else
in the pool. -/
def lastSlot (pool : List (Expert σ)) (role : ExpertRole) (ordered : List String) :
    Option String :=
  match ordered.find? (lastRoleNames pool role).contains with
  | some last => some last
  | none => (pool.find? (·.role = role)).map (·.name)

/-- Force the role into the last slot and fill the others, as far as `max_activation` allows. -/
def fillSlots (router : HybridRouter R) (pool : List (Expert σ)) (ordered : List String) :
    List String :=
  if (lastRoleNames pool router.forceLastRole).isEmpty then
    capActivation router.maxActivation ordered
  else
    match lastSlot pool router.forceLastRole ordered with
    | none => ordered
    | some last =>
      let others := ordered.filter (· ≠ last)
      let others :=
        if 0 < router.maxActivation then sliceTo others (max 0 (router.maxActivation - 1))
        else others
      others ++ [last]

/-- What only the cosine router selected. -/
def cosineOnly (l c : List String) : List String := c.filter (· ∉ l)

/-- The ordered selection: the logistic router's, then the others in the order of the set. -/
theorem order_union (setOrder : SetOrder) (l : List String) {c : List String} (hc : c.Nodup) :
    ∃ p, p.Perm (cosineOnly l c) ∧ order l (setOrder.list (l ++ c)) = l ++ p := by
  refine ⟨(setOrder.list (l ++ c)).filter fun n => !l.contains n, ?_, ?_⟩
  · rw [cosineOnly, List.perm_ext_iff_of_nodup ((setOrder.nodup_list _).filter _) (hc.filter _)]
    intro n
    simp only [List.mem_filter, setOrder.mem_list, List.mem_append, List.contains_eq_mem,
      Bool.not_eq_true', decide_eq_false_iff_not, decide_eq_true_eq]
    tauto
  · rw [order, List.filter_eq_self.mpr]
    intro n hn
    rw [List.contains_eq_mem, decide_eq_true_eq, setOrder.mem_list]
    exact List.mem_append_left _ hn

/-- The ordered selection has every name of the two selections once. -/
theorem order_perm (setOrder : SetOrder) {l : List String} (hl : l.Nodup) (c : List String) :
    (order l (setOrder.list (l ++ c))).Perm (l ++ c).dedup := by
  have hnodup : (order l (setOrder.list (l ++ c))).Nodup := by
    refine List.nodup_append.mpr ⟨hl.filter _, (setOrder.nodup_list _).filter _, ?_⟩
    rintro a ha b hb rfl
    have hold := List.mem_of_mem_filter ha
    have hnew := (List.mem_filter.mp hb).2
    simp [hold] at hnew
  rw [List.perm_ext_iff_of_nodup hnodup (List.nodup_dedup _)]
  intro n
  simp only [order, List.mem_append, List.mem_filter, setOrder.mem_list, List.mem_dedup,
    List.contains_eq_mem, Bool.not_eq_true', decide_eq_false_iff_not, decide_eq_true_eq]
  tauto

variable [Hashlib] [Numpy R]

/-- `from_experts`: `alpha` is read; the other keyword arguments are dropped. -/
def fromExperts (experts : List (Expert σ)) (alpha : R := lit (6 / 10)) (_minActivation : ℤ := 1)
    (_maxActivation : ℤ := 3) (_forceLastRole : ExpertRole := .synthesizer) :
    EStateM Exn (Prototypes R) (HybridRouter R) := do
  let logistic := LogisticRouter.fromExperts experts
  let cosine ← CosineRouter.fromExperts experts
  pure (create logistic cosine alpha)

variable [Unicode]

/-- `route`. The state is the cosine router's prototypes. -/
def route (router : HybridRouter R) (setOrder : SetOrder) (prompt : String)
    (pool : List (Expert σ)) : EStateM Exn (Prototypes R) (List String) := do
  let lSelection ← liftExcept (router.logistic.route prompt pool)
  let cSelection ← router.cosine.route prompt pool
  let union := setOrder.list (lSelection ++ cSelection)
  if union.isEmpty then liftExcept (router.logistic.route prompt pool)
  else do
    let lOrder ← liftExcept (router.logistic.route prompt pool)
    pure (router.fillSlots pool (order lOrder union))

/-! ## What a route makes of the two selections -/

omit [Hashlib] [Numpy R] [Unicode] in
/-- A route on the selections `l` and `c` of the two routers. -/
def merge (router : HybridRouter R) (setOrder : SetOrder) (pool : List (Expert σ))
    (l c : List String) : List String :=
  let union := setOrder.list (l ++ c)
  if union.isEmpty then l else router.fillSlots pool (order l union)

omit [PyFloat R] [Hashlib] [Numpy R] [Unicode] in
/-- Two empty selections merge to an empty one. -/
theorem merge_nil (router : HybridRouter R) (setOrder : SetOrder) (pool : List (Expert σ)) :
    router.merge setOrder pool [] [] = [] := by
  rw [merge, if_pos]
  exact List.isEmpty_iff.mpr (SetOrder.list_eq_nil.mpr rfl)

omit [PyFloat R] [Hashlib] [Numpy R] [Unicode] in
/-- Merging fills the slots in the order of the two selections. -/
theorem merge_eq_fillSlots (router : HybridRouter R) (setOrder : SetOrder)
    (pool : List (Expert σ)) {l c : List String} (hne : l ≠ [] ∨ c ≠ []) :
    router.merge setOrder pool l c =
      router.fillSlots pool (order l (setOrder.list (l ++ c))) := by
  rw [merge, if_neg]
  rw [List.isEmpty_iff, SetOrder.list_eq_nil, List.append_eq_nil_iff]
  tauto

/-- A route returned if and only if both of its parts did. -/
theorem route_eq_ok {router : HybridRouter R} {setOrder : SetOrder} {prompt : String}
    {pool : List (Expert σ)} {protos protos' : Prototypes R} {names : List String} :
    router.route setOrder prompt pool protos = .ok names protos' ↔
      ∃ l c, router.logistic.route prompt pool = .ok l ∧
        router.cosine.route prompt pool protos = .ok c protos' ∧
        names = router.merge setOrder pool l c := by
  simp only [route, bind_eq_ok, liftExcept_eq_ok]
  constructor
  · rintro ⟨l, _, ⟨hl, rfl⟩, c, protos₁, hc, h⟩
    refine ⟨l, c, hl, ?_⟩
    -- The source routes a second time: the answer of the logistic router is the same.
    rw [merge]
    split at h
    case isTrue hempty =>
      obtain ⟨hl', rfl⟩ := liftExcept_eq_ok.mp h
      cases hl.symm.trans hl'
      exact ⟨hc, (if_pos hempty).symm⟩
    case isFalse hempty =>
      obtain ⟨_, _, hlift, hpure⟩ := bind_eq_ok.mp h
      obtain ⟨hl', rfl⟩ := liftExcept_eq_ok.mp hlift
      cases hl.symm.trans hl'
      cases hpure
      exact ⟨hc, (if_neg hempty).symm⟩
  · rintro ⟨l, c, hl, hc, rfl⟩
    refine ⟨l, protos, ⟨hl, rfl⟩, c, protos', hc, ?_⟩
    rw [merge, hl, liftExcept_ok]
    split <;> rfl

/-- Nothing is selected from an empty pool. -/
theorem route_empty (router : HybridRouter R) (setOrder : SetOrder) (prompt : String)
    (protos : Prototypes R) :
    router.route setOrder prompt ([] : List (Expert σ)) protos = .ok [] protos :=
  route_eq_ok.mpr ⟨[], [], rfl, rfl, (merge_nil ..).symm⟩

/-- Where one of the routers raises, so does the route, whatever the order of the set. -/
theorem route_error_or (router : HybridRouter R) (prompt : String) (pool : List (Expert σ))
    (protos : Prototypes R) :
    (∃ l c protos', router.logistic.route prompt pool = .ok l ∧
      router.cosine.route prompt pool protos = .ok c protos') ∨
      ∃ x protos', ∀ setOrder, router.route setOrder prompt pool protos = .error x protos' := by
  cases hl : router.logistic.route prompt pool with
  | error x =>
    right
    refine ⟨x, protos, fun setOrder => ?_⟩
    rw [route, hl]
    rfl
  | ok l =>
    cases hc : router.cosine.route prompt pool protos with
    | ok c protos' => exact .inl ⟨l, c, protos', rfl, rfl⟩
    | error x protos' =>
      right
      refine ⟨x, protos', fun setOrder => ?_⟩
      rw [route, hl, liftExcept_ok, bind_ok (pure_apply l protos), bind_error hc]

end HybridRouter

end Chen
