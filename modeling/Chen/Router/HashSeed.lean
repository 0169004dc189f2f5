import Chen.Router.Proper

/-!
# When the order of the set shows

The hybrid router enumerates a set, in an order that the seed of the string hash decides. The order
moves the names that only the cosine router selected, and the cap then drops some of them. What a
route returns hides the order in the cases that `Settled` lists, and in no others.
-/

namespace Chen

open Effect

/-! ## Cutting a list whose end is permuted -/

section Cut

variable {α : Type}

/-- `xs[:k]`, or `xs` without a limit. -/
def cut (k : Option ℕ) (xs : List α) : List α := k.elim xs xs.take

/-- The limit does not reach beyond `front`. -/
def Full (k : Option ℕ) (front : List α) : Prop := ∃ n ∈ k, n ≤ front.length

/-- Cutting keeps the order. -/
theorem cut_sublist (k : Option ℕ) (xs : List α) : (cut k xs).Sublist xs := by
  cases k with
  | none => exact .refl _
  | some n => exact List.take_sublist n xs

/-- Behind a full front nothing is kept. -/
theorem cut_append_of_full {k : Option ℕ} {front : List α} (h : Full k front) (xs : List α) :
    cut k (front ++ xs) = cut k front := by
  obtain ⟨n, rfl, hn⟩ := h
  exact List.take_append_of_le_length hn

/-- Where the limit reaches beyond `front`, the next element shows. -/
theorem getElem?_cut {k : Option ℕ} {front : List α} (h : ¬ Full k front) (x : α)
    (xs back : List α) : (cut k (front ++ x :: xs) ++ back)[front.length]? = some x := by
  cases k with
  | none => simp [cut]
  | some n =>
    have hn : front.length < n := by
      by_contra hle
      exact h ⟨n, rfl, not_lt.mp hle⟩
    have hlen : front.length < (cut (some n) (front ++ x :: xs)).length := by
      simp only [cut, Option.elim_some, List.length_take, List.length_append, List.length_cons]
      omega
    rw [List.getElem?_append_left hlen]
    simp [cut, hn]

/-- One element has one order. -/
theorem eq_of_perm_of_length_le_one {xs ys : List α} (h : ys.Perm xs) (hlen : xs.length ≤ 1) :
    ys = xs := by
  cases xs with
  | nil => exact h.eq_nil
  | cons x xs =>
    have hnil : xs = [] := List.eq_nil_of_length_eq_zero (by simpa using hlen)
    subst hnil
    exact List.perm_singleton.mp h

/-- What follows `front` is the same for all arrangements exactly when the limit does not reach it
or there is only one arrangement. -/
theorem cut_perm_iff (k : Option ℕ) (front back : List α) {xs : List α} (hnd : xs.Nodup) :
    (∀ p q : List α, p.Perm xs → q.Perm xs →
      cut k (front ++ p) ++ back = cut k (front ++ q) ++ back) ↔
    Full k front ∨ xs.length ≤ 1 := by
  constructor
  · intro hall
    by_contra hcon
    obtain ⟨hfull, hlen⟩ := not_or.mp hcon
    match xs, hnd with
    | [], _ => simp at hlen
    | [x], _ => simp at hlen
    | x :: y :: rest, hnd =>
      have heq := hall (x :: y :: rest) (y :: x :: rest) (.refl _) (.swap ..)
      have hx := getElem?_cut hfull x (y :: rest) back
      rw [heq, getElem?_cut hfull y (x :: rest) back] at hx
      cases hx
      simp at hnd
  · rintro (hfull | hlen) p q hp hq
    · rw [cut_append_of_full hfull, cut_append_of_full hfull]
    · rw [eq_of_perm_of_length_le_one hp hlen, eq_of_perm_of_length_le_one hq hlen]

/-- In front of a free slot, one more name is kept. -/
theorem cut_append_of_not_full {k : Option ℕ} {front xs : List α} (h : ¬ Full k front)
    (hlen : xs.length ≤ 1) : cut k (front ++ xs) = front ++ xs := by
  cases k with
  | none => rfl
  | some n =>
    have hn : front.length < n := by
      by_contra hle
      exact h ⟨n, rfl, not_lt.mp hle⟩
    refine List.take_of_length_le ?_
    rw [List.length_append]
    omega

end Cut

/-! ## One name that is set aside for the last slot -/

section Spare

variable {names spare front back : List String}

/-- Spare names may be put behind the others. -/
theorem perm_rest_append (hnd : names.Nodup) (hspare : spare.Sublist names) :
    (names.filter (· ∉ spare) ++ spare).Perm names := by
  have hnodup : (names.filter (· ∉ spare) ++ spare).Nodup := by
    refine List.nodup_append.mpr ⟨hnd.filter _, hnd.sublist hspare, ?_⟩
    rintro a ha b hb rfl
    simpa [hb] using (List.mem_filter.mp ha).2
  rw [List.perm_ext_iff_of_nodup hnodup hnd]
  intro n
  have hsub : n ∈ spare → n ∈ names := fun hn => hspare.subset hn
  simp only [List.mem_append, List.mem_filter, decide_eq_true_eq]
  tauto

/-- When a result that puts `names`, in any arrangement but with the spare ones set aside, behind
`front` does not depend on the arrangement. -/
theorem cut_spare_perm_iff (k : Option ℕ) (front back : List String) (hnd : names.Nodup)
    (hspare : spare.Sublist names) :
    (∀ p q : List String, p.Perm names → q.Perm names →
        cut k (front ++ p.filter (· ∉ spare)) ++ back =
          cut k (front ++ q.filter (· ∉ spare)) ++ back) ↔
    Full k front ∨ (names.filter (· ∉ spare)).length ≤ 1 := by
  rw [← cut_perm_iff k front back (hnd.filter _)]
  constructor
  · intro hall p q hp hq
    have hset : ∀ {p : List String}, p.Perm (names.filter (· ∉ spare)) →
        (p ++ spare).filter (· ∉ spare) = p := by
      intro p hp
      rw [List.filter_append, List.filter_eq_self.mpr, List.filter_eq_nil_iff.mpr, List.append_nil]
      · simp
      · exact fun n hn => (List.mem_filter.mp (hp.mem_iff.mp hn)).2
    have hperm := perm_rest_append hnd hspare
    have heq := hall (p ++ spare) (q ++ spare) ((hp.append_right _).trans hperm)
      ((hq.append_right _).trans hperm)
    rwa [hset hp, hset hq] at heq
  · exact fun hall p q hp hq => hall _ _ (hp.filter _) (hq.filter _)

/-- When a result that does not depend on the arrangement keeps the order of `names`. -/
theorem cut_spare_sublist_iff (k : Option ℕ) (hnd : names.Nodup) (hspare : spare.Sublist names)
    (hfront : ∀ n ∈ front, n ∉ names) (hback : back.filter (· ∈ names) = spare)
    (hone : Full k front ∨ (names.filter (· ∉ spare)).length ≤ 1) :
    (∀ p : List String, p.Perm names →
      ((cut k (front ++ p.filter (· ∉ spare)) ++ back).filter (· ∈ names)).Sublist names) ↔
    Full k front ∨ names = names.filter (· ∉ spare) ++ spare := by
  have hfront_filter : front.filter (· ∈ names) = [] := by
    rw [List.filter_eq_nil_iff]
    exact fun n hn => by simpa using hfront n hn
  by_cases hfull : Full k front
  · refine iff_of_true (fun p _ => ?_) (.inl hfull)
    have hcut_filter : (cut k front).filter (· ∈ names) = [] :=
      List.sublist_nil.mp (hfront_filter ▸ (cut_sublist k front).filter _)
    rw [cut_append_of_full hfull, List.filter_append, hcut_filter, hback]
    exact hspare
  · have hlen := hone.resolve_left hfull
    have hrest_filter : (names.filter (· ∉ spare)).filter (· ∈ names) =
        names.filter (· ∉ spare) :=
      List.filter_eq_self.mpr fun n hn => decide_eq_true (List.mem_of_mem_filter hn)
    -- At most one name is not spare, so that its order does not matter.
    have hresult : ∀ {p : List String}, p.Perm names →
        (cut k (front ++ p.filter (· ∉ spare)) ++ back).filter (· ∈ names) =
          names.filter (· ∉ spare) ++ spare := by
      intro p hp
      rw [eq_of_perm_of_length_le_one (hp.filter _) hlen, cut_append_of_not_full hfull hlen,
        List.filter_append, List.filter_append, hfront_filter, hrest_filter, hback, List.nil_append]
    constructor
    · intro horder
      have hsub := horder names (.refl _)
      rw [hresult (.refl _)] at hsub
      exact .inr (hsub.eq_of_length (perm_rest_append hnd hspare).length_eq).symm
    · intro h p hp
      rw [hresult hp, ← h.resolve_left hfull]

/-- When a result that puts `names`, in any arrangement but with the spare ones set aside, behind
`front` depends neither on the arrangement nor departs from the order of `names`. -/
theorem cut_spare_iff (k : Option ℕ) (hnd : names.Nodup) (hspare : spare.Sublist names)
    (hfront : ∀ n ∈ front, n ∉ names) (hback : back.filter (· ∈ names) = spare) :
    ((∀ p q : List String, p.Perm names → q.Perm names →
        cut k (front ++ p.filter (· ∉ spare)) ++ back =
          cut k (front ++ q.filter (· ∉ spare)) ++ back) ∧
      ∀ p : List String, p.Perm names →
        ((cut k (front ++ p.filter (· ∉ spare)) ++ back).filter (· ∈ names)).Sublist names) ↔
    Full k front ∨ (names.filter (· ∉ spare)).length ≤ 1 ∧
      names = names.filter (· ∉ spare) ++ spare := by
  rw [cut_spare_perm_iff k front back hnd hspare, or_and_left]
  exact and_congr_right (cut_spare_sublist_iff k hnd hspare hfront hback)

end Spare

/-! ## The hybrid router -/

namespace HybridRouter

variable {σ R : Type}

/-- The last slot goes to an expert that the logistic router did not select. -/
def LastFromOutside (router : HybridRouter R) (pool : List (Expert σ)) (l : List String) : Prop :=
  (∃ e ∈ pool, e.role = router.forceLastRole) ∧
    ∀ n ∈ l, n ∉ lastRoleNames pool router.forceLastRole

instance (router : HybridRouter R) (pool : List (Expert σ)) (l : List String) :
    Decidable (router.LastFromOutside pool l) :=
  inferInstanceAs (Decidable ((∃ e ∈ pool, _) ∧ ∀ n ∈ l, _))

/-- The names that only the cosine router selected and that may get the last slot. -/
def candidates (router : HybridRouter R) (pool : List (Expert σ)) (l c : List String) :
    List String :=
  if router.LastFromOutside pool l then
    (cosineOnly l c).filter (· ∈ lastRoleNames pool router.forceLastRole)
  else []

/-- The logistic selection and the last slot fill the cap. -/
def NoSlotLeft (router : HybridRouter R) (pool : List (Expert σ)) (l : List String) : Prop :=
  0 < router.maxActivation ∧
    router.maxActivation ≤ l.length + if router.LastFromOutside pool l then 1 else 0

/-- The selections `l` and `c` leave nothing to the order of the set. At most one name of the
cosine router's may get the last slot. The others find no slot left; or there is at most one of
them, which the cosine router ranks before the name that gets the last slot. -/
structure Settled (router : HybridRouter R) (pool : List (Expert σ)) (l c : List String) :
    Prop where
  one_candidate : (router.candidates pool l c).length ≤ 1
  no_choice : router.NoSlotLeft pool l ∨
    ((cosineOnly l c).filter (· ∉ router.candidates pool l c)).length ≤ 1 ∧
      cosineOnly l c = (cosineOnly l c).filter (· ∉ router.candidates pool l c) ++
        router.candidates pool l c

/-- How many of the slots before the last one there are. -/
def frontSlots (router : HybridRouter R) : Option ℕ :=
  if 0 < router.maxActivation then some (router.maxActivation - 1).toNat else none

/-- The names in front of the last slot, cut to its slots. -/
theorem others_eq_cut (router : HybridRouter R) (last : String) (ordered : List String) :
    router.others last ordered = cut router.frontSlots (ordered.filter (· ≠ last)) := by
  rw [others, frontSlots]
  split
  case isTrue hpos =>
    have hslots : max 0 (router.maxActivation - 1) = router.maxActivation - 1 := by omega
    rw [hslots, sliceTo_of_nonneg _ (by omega)]
    rfl
  case isFalse => rfl

section Merge

variable {router : HybridRouter R} {pool : List (Expert σ)} {l c : List String}

/-- A name of the first selection is not one of the second alone. -/
theorem cosineOnly_notMem {n : String} (h : n ∈ l) : n ∉ cosineOnly l c := by
  simp [cosineOnly, h]

/-- The candidates are names of the second selection alone. -/
theorem candidates_sublist : (router.candidates pool l c).Sublist (cosineOnly l c) := by
  rw [candidates]
  split
  case isTrue => exact List.filter_sublist
  case isFalse => exact List.nil_sublist _

/-- A selection that has the forced role gives it the last slot, whatever follows. -/
theorem lastSlot_append (hrole : ∃ n ∈ l, n ∈ lastRoleNames pool router.forceLastRole) :
    ∃ last ∈ l, ∀ p : List String,
      lastSlot pool router.forceLastRole (l ++ p) = some last := by
  have hsome : (l.find? (lastRoleNames pool router.forceLastRole).contains).isSome := by
    simpa using hrole
  obtain ⟨last, hlast⟩ := Option.isSome_iff_exists.mp hsome
  refine ⟨last, List.mem_of_find?_eq_some hlast, fun p => ?_⟩
  rw [lastSlot, List.find?_append, hlast]
  rfl

/-- A selection that lacks the forced role leaves the last slot to the candidate, or to the
pool. -/
theorem lastSlot_of_outside (hout : router.LastFromOutside pool l)
    (hone : (router.candidates pool l c).length ≤ 1) :
    ∃ last, last ∉ l ∧ [last].filter (· ∈ cosineOnly l c) = router.candidates pool l c ∧
      ∀ p : List String, p.Perm (cosineOnly l c) →
        lastSlot pool router.forceLastRole (l ++ p) = some last := by
  have hl : l.find? (lastRoleNames pool router.forceLastRole).contains = none := by
    rw [List.find?_eq_none]
    exact fun n hn => by simpa using hout.2 n hn
  have hslot : ∀ p : List String, lastSlot pool router.forceLastRole (l ++ p) =
      lastSlot pool router.forceLastRole p := by
    intro p
    rw [lastSlot, List.find?_append, hl, Option.none_or, lastSlot]
  have hcand : router.candidates pool l c =
      (cosineOnly l c).filter (· ∈ lastRoleNames pool router.forceLastRole) := if_pos hout
  have hfound : ∀ p : List String, p.Perm (cosineOnly l c) →
      p.find? (lastRoleNames pool router.forceLastRole).contains =
        (router.candidates pool l c).head? := by
    intro p hp
    have hperm : (p.filter (· ∈ lastRoleNames pool router.forceLastRole)).Perm
        (router.candidates pool l c) := hcand ▸ hp.filter _
    rw [← eq_of_perm_of_length_le_one hperm hone, List.head?_filter]
    exact congrArg (p.find? ·) (funext fun n => List.contains_eq_mem ..)
  -- The last slot goes to the one candidate, or to the pool's own if there is none.
  cases hS : router.candidates pool l c with
  | nil =>
    obtain ⟨last, hlast⟩ := exists_lastSlot hout.1 []
    have hrole := lastSlot_mem hlast
    refine ⟨last, fun hmem => hout.2 last hmem hrole, ?_, fun p hp => ?_⟩
    · rw [List.filter_eq_nil_iff]
      intro n hn hmem
      obtain rfl := List.mem_singleton.mp hn
      rw [hcand, List.filter_eq_nil_iff] at hS
      exact hS n (of_decide_eq_true hmem) (decide_eq_true hrole)
    · rw [hslot, ← hlast, lastSlot, hfound p hp, hS]
      rfl
  | cons last rest =>
    have hnil : rest = [] := by
      rw [hS] at hone
      exact List.eq_nil_of_length_eq_zero (by simpa using hone)
    subst hnil
    have hmem : last ∈ cosineOnly l c := candidates_sublist.subset (hS ▸ List.mem_singleton_self _)
    refine ⟨last, fun h => cosineOnly_notMem h hmem, by simp [hmem], fun p hp => ?_⟩
    rw [hslot, lastSlot, hfound p hp, hS]
    rfl

/-- What the limit before the last slot means for a front of so many names. -/
theorem full_frontSlots_iff {front : List String} {size : ℕ} (h : front.length + 1 = size) :
    Full router.frontSlots front ↔ 0 < router.maxActivation ∧ router.maxActivation ≤ size := by
  rw [Full, frontSlots]
  split
  case isTrue hpos =>
    simp only [Option.mem_def, Option.some.injEq, exists_eq_left']
    omega
  case isFalse hneg => simp [hneg]

/-- The arrangement of the cosine router's names matters only in that the limit `k` cuts them off
behind `front`. The candidates are in `back`. -/
structure CutBy (router : HybridRouter R) (pool : List (Expert σ)) (l c : List String)
    (k : Option ℕ) (front back : List String) : Prop where
  front_notMem : ∀ n ∈ front, n ∉ cosineOnly l c
  back_filter : back.filter (· ∈ cosineOnly l c) = router.candidates pool l c
  full_iff : Full k front ↔ router.NoSlotLeft pool l
  fillSlots_eq : ∀ p : List String, p.Perm (cosineOnly l c) → router.fillSlots pool (l ++ p) =
    cut k (front ++ p.filter (· ∉ router.candidates pool l c)) ++ back

/-- The last slot goes to a name of the logistic router. -/
theorem exists_cutBy_of_role (hl : l.Nodup) (hex : ∃ e ∈ pool, e.role = router.forceLastRole)
    (hrole : ∃ n ∈ l, n ∈ lastRoleNames pool router.forceLastRole) :
    ∃ front back, router.CutBy pool l c router.frontSlots front back := by
  have hin : ¬ router.LastFromOutside pool l := by
    rintro ⟨-, hnone⟩
    obtain ⟨n, hn, hmem⟩ := hrole
    exact hnone n hn hmem
  obtain ⟨last, hlast, hslot⟩ := lastSlot_append hrole
  have hnew : last ∉ cosineOnly l c := cosineOnly_notMem hlast
  refine ⟨l.filter (· ≠ last), [last], ?_, ?_, ?_, fun p hp => ?_⟩
  · exact fun n hn => cosineOnly_notMem (List.mem_of_mem_filter hn)
  · rw [candidates, if_neg hin]
    simp [hnew]
  · rw [full_frontSlots_iff (length_filter_ne hl hlast), NoSlotLeft, if_neg hin, add_zero]
  · have hkeep : p.filter (· ≠ last) = p :=
      filter_ne_of_notMem fun h => hnew (hp.mem_iff.mp h)
    rcases router.fillSlots_cases pool (l ++ p) with ⟨-, last', hlast', heq⟩ | ⟨hno, -⟩
    · cases (hslot p).symm.trans hlast'
      rw [heq, others_eq_cut, List.filter_append, hkeep, candidates, if_neg hin]
      simp
    · exact absurd hex hno

/-- The last slot goes to the candidate, or to an expert of the pool. -/
theorem exists_cutBy_of_outside (hout : router.LastFromOutside pool l)
    (hone : (router.candidates pool l c).length ≤ 1) :
    ∃ front back, router.CutBy pool l c router.frontSlots front back := by
  obtain ⟨last, hlast, hcand, hslot⟩ := lastSlot_of_outside hout hone
  refine ⟨l, [last], fun n hn => cosineOnly_notMem hn, hcand, ?_, fun p hp => ?_⟩
  · rw [full_frontSlots_iff rfl, NoSlotLeft, if_pos hout]
    rfl
  · rcases router.fillSlots_cases pool (l ++ p) with ⟨-, last', hlast', heq⟩ | ⟨hno, -⟩
    · cases (hslot p hp).symm.trans hlast'
      have hrest : p.filter (· ≠ last) = p.filter (· ∉ router.candidates pool l c) := by
        refine List.filter_congr fun n hn => ?_
        have hmem := hp.mem_iff.mp hn
        rw [decide_eq_decide, ← hcand]
        simp only [List.mem_filter, List.mem_singleton, decide_eq_true_eq]
        tauto
      rw [heq, others_eq_cut, List.filter_append, filter_ne_of_notMem hlast, hrest]
    · exact absurd hout.1 hno

/-- In a pool that has no expert of the forced role there is no last slot. -/
theorem exists_cutBy_of_no_role (hex : ¬ ∃ e ∈ pool, e.role = router.forceLastRole) :
    ∃ k front back, router.CutBy pool l c k front back := by
  have hout : ¬ router.LastFromOutside pool l := fun h => hex h.1
  refine ⟨if 0 < router.maxActivation then some router.maxActivation.toNat else none, l, [],
    fun n hn => cosineOnly_notMem hn, ?_, ?_, fun p _ => ?_⟩
  · rw [candidates, if_neg hout, List.filter_nil]
  · rw [NoSlotLeft, if_neg hout, Full]
    split
    case isTrue hpos =>
      simp only [Option.mem_def, Option.some.injEq, exists_eq_left']
      omega
    case isFalse hneg => simp [hneg]
  · rcases router.fillSlots_cases pool (l ++ p) with ⟨h, -⟩ | ⟨-, heq⟩
    · exact absurd h hex
    · rw [heq, candidates, if_neg hout, capActivation]
      split
      case isTrue hpos =>
        rw [sliceTo_of_nonneg _ (by omega)]
        simp [cut]
      case isFalse => simp [cut]

/-- With one candidate at most, the arrangement of the cosine router's names only matters behind a
fixed front. -/
theorem exists_cutBy (hl : l.Nodup) (hone : (router.candidates pool l c).length ≤ 1) :
    ∃ k front back, router.CutBy pool l c k front back := by
  by_cases hex : ∃ e ∈ pool, e.role = router.forceLastRole
  · by_cases hrole : ∃ n ∈ l, n ∈ lastRoleNames pool router.forceLastRole
    · exact ⟨_, exists_cutBy_of_role hl hex hrole⟩
    · exact ⟨_, exists_cutBy_of_outside ⟨hex, by simpa using hrole⟩ hone⟩
  · exact exists_cutBy_of_no_role hex

/-- A candidate that comes first gets the last slot. -/
theorem getLast?_fillSlots (hout : router.LastFromOutside pool l) {n : String}
    (hn : n ∈ lastRoleNames pool router.forceLastRole) (rest : List String) :
    (router.fillSlots pool (l ++ n :: rest)).getLast? = some n := by
  have hl : l.find? (lastRoleNames pool router.forceLastRole).contains = none := by
    rw [List.find?_eq_none]
    exact fun n hn => by simpa using hout.2 n hn
  have hslot : lastSlot pool router.forceLastRole (l ++ n :: rest) = some n := by
    rw [lastSlot, List.find?_append, hl, Option.none_or, List.find?_cons_of_pos (by simpa using hn)]
  rcases router.fillSlots_cases pool (l ++ n :: rest) with ⟨-, last, hlast, heq⟩ | ⟨hno, -⟩
  · cases hslot.symm.trans hlast
    rw [heq, List.getLast?_concat]
  · exact absurd hout.1 hno

/-- Two candidates would show which of them comes first. -/
theorem one_candidate_of_hidden (hc : c.Nodup)
    (hall : ∀ p q : List String, p.Perm (cosineOnly l c) → q.Perm (cosineOnly l c) →
      router.fillSlots pool (l ++ p) = router.fillSlots pool (l ++ q)) :
    (router.candidates pool l c).length ≤ 1 := by
  by_cases hout : router.LastFromOutside pool l
  · have hnd : (router.candidates pool l c).Nodup := (hc.filter _).sublist candidates_sublist
    have hmem : ∀ n ∈ router.candidates pool l c,
        n ∈ cosineOnly l c ∧ n ∈ lastRoleNames pool router.forceLastRole := by
      intro n hn
      rw [candidates, if_pos hout, List.mem_filter, decide_eq_true_eq] at hn
      exact hn
    have hfirst : ∀ n ∈ router.candidates pool l c,
        (n :: (cosineOnly l c).erase n).Perm (cosineOnly l c) :=
      fun n hn => (List.perm_cons_erase (hmem n hn).1).symm
    -- A candidate that comes first gets the last slot, which is then the same for all of them.
    have hsame : ∀ n ∈ router.candidates pool l c, ∀ n' ∈ router.candidates pool l c, n = n' := by
      intro n hn n' hn'
      have hlast := getLast?_fillSlots hout (hmem n hn).2 ((cosineOnly l c).erase n)
      rw [hall _ _ (hfirst n hn) (hfirst n' hn'),
        getLast?_fillSlots hout (hmem n' hn').2] at hlast
      exact (Option.some.inj hlast).symm
    match hS : router.candidates pool l c with
    | [] => simp
    | [_] => simp
    | n :: n' :: _ =>
      rw [hS] at hnd hsame
      have heq := hsame n (by simp) n' (by simp)
      simp [heq] at hnd
  · rw [candidates, if_neg hout]
    simp

/-- The order of the second selection is hidden if and only if its cut is. -/
theorem CutBy.hides_iff {k : Option ℕ} {front back : List String}
    (h : router.CutBy pool l c k front back) (hc : c.Nodup) :
    ((∀ p q : List String, p.Perm (cosineOnly l c) → q.Perm (cosineOnly l c) →
        router.fillSlots pool (l ++ p) = router.fillSlots pool (l ++ q)) ∧
      ∀ p : List String, p.Perm (cosineOnly l c) →
        ((router.fillSlots pool (l ++ p)).filter (· ∈ cosineOnly l c)).Sublist (cosineOnly l c)) ↔
    router.NoSlotLeft pool l ∨
      ((cosineOnly l c).filter (· ∉ router.candidates pool l c)).length ≤ 1 ∧
        cosineOnly l c = (cosineOnly l c).filter (· ∉ router.candidates pool l c) ++
          router.candidates pool l c := by
  have hnd : (cosineOnly l c).Nodup := hc.filter _
  rw [← h.full_iff, ← cut_spare_iff k hnd candidates_sublist h.front_notMem h.back_filter]
  refine and_congr (forall₄_congr fun p q hp hq => ?_) (forall₂_congr fun p hp => ?_)
  · rw [h.fillSlots_eq p hp, h.fillSlots_eq q hq]
  · rw [h.fillSlots_eq p hp]

/-- The merged selections of all arrangements are the same, with the cosine router's names in its
order, exactly when the selections are settled. -/
theorem fillSlots_hides_iff (hl : l.Nodup) (hc : c.Nodup) :
    ((∀ p q : List String, p.Perm (cosineOnly l c) → q.Perm (cosineOnly l c) →
        router.fillSlots pool (l ++ p) = router.fillSlots pool (l ++ q)) ∧
      ∀ p : List String, p.Perm (cosineOnly l c) →
        ((router.fillSlots pool (l ++ p)).filter (· ∈ cosineOnly l c)).Sublist (cosineOnly l c)) ↔
    router.Settled pool l c := by
  constructor
  · intro h
    have hone := one_candidate_of_hidden hc h.1
    obtain ⟨k, front, back, hcut⟩ := exists_cutBy hl hone
    exact ⟨hone, (hcut.hides_iff hc).mp h⟩
  · rintro ⟨hone, hchoice⟩
    obtain ⟨k, front, back, hcut⟩ := exists_cutBy hl hone
    exact (hcut.hides_iff hc).mpr hchoice

end Merge

/-- Every arrangement of the cosine router's names is the order of some set. -/
theorem exists_setOrder {l c p : List String} (hl : l.Nodup) (hc : c.Nodup)
    (hp : p.Perm (cosineOnly l c)) :
    ∃ setOrder : SetOrder, order l (setOrder.list (l ++ c)) = l ++ p := by
  have hnew : ∀ n ∈ p, n ∉ l := by
    intro n hn
    simpa [cosineOnly] using (List.mem_filter.mp (hp.mem_iff.mp hn)).2
  have hnd : (l ++ p).Nodup := by
    refine List.nodup_append.mpr ⟨hl, hp.nodup_iff.mpr (hc.filter _), ?_⟩
    rintro a ha b hb rfl
    exact hnew a hb ha
  have hmem : ∀ n, n ∈ l ++ p ↔ n ∈ l ++ c := by
    intro n
    simp only [List.mem_append, hp.mem_iff, cosineOnly, List.mem_filter, decide_eq_true_eq]
    tauto
  refine ⟨.given (l ++ c) (l ++ p) hnd hmem, ?_⟩
  have hlist : (SetOrder.given (l ++ c) (l ++ p) hnd hmem).list (l ++ c) = l ++ p := if_pos rfl
  rw [hlist, order, List.filter_eq_self.mpr, List.filter_append, List.filter_eq_nil_iff.mpr,
    List.nil_append, List.filter_eq_self.mpr]
  · exact fun n hn => by simpa using hnew n hn
  · exact fun n hn => by simpa using hn
  · exact fun n hn => by simpa using .inl hn

/-- For two selections: the merged selection hides the order of the set, and has the names that
only the cosine router selected in its order, exactly when they are settled. -/
theorem merge_hides_iff (router : HybridRouter R) (pool : List (Expert σ)) {l c : List String}
    (hl : l.Nodup) (hc : c.Nodup) :
    ((∀ setOrder setOrder' : SetOrder,
        router.merge setOrder pool l c = router.merge setOrder' pool l c) ∧
      ∀ setOrder : SetOrder,
        ((router.merge setOrder pool l c).filter (· ∈ cosineOnly l c)).Sublist c) ↔
    router.Settled pool l c := by
  by_cases hne : l ≠ [] ∨ c ≠ []
  · have hmerge : ∀ setOrder : SetOrder, ∃ p, p.Perm (cosineOnly l c) ∧
        router.merge setOrder pool l c = router.fillSlots pool (l ++ p) := by
      intro setOrder
      obtain ⟨p, hp, heq⟩ := order_union setOrder l hc
      exact ⟨p, hp, by rw [merge_eq_fillSlots _ _ _ hne, heq]⟩
    -- Every order of the names of the second selection is that of some set.
    have hreach : ∀ p : List String, p.Perm (cosineOnly l c) → ∃ setOrder : SetOrder,
        router.merge setOrder pool l c = router.fillSlots pool (l ++ p) := by
      intro p hp
      obtain ⟨setOrder, heq⟩ := exists_setOrder hl hc hp
      exact ⟨setOrder, by rw [merge_eq_fillSlots _ _ _ hne, heq]⟩
    -- restricted to these names, the order of `c` is that of `cosineOnly l c`
    have hsub : ∀ names : List String, (names.filter (· ∈ cosineOnly l c)).Sublist c ↔
        (names.filter (· ∈ cosineOnly l c)).Sublist (cosineOnly l c) := by
      intro names
      refine ⟨fun h => ?_, fun h => h.trans List.filter_sublist⟩
      have hfilter := h.filter (· ∉ l)
      rwa [List.filter_eq_self.mpr] at hfilter
      intro n hn
      exact (List.mem_filter.mp (of_decide_eq_true (List.mem_filter.mp hn).2)).2
    rw [← fillSlots_hides_iff hl hc]
    constructor
    · rintro ⟨hall, horder⟩
      refine ⟨fun p q hp hq => ?_, fun p hp => ?_⟩
      · obtain ⟨o, ho⟩ := hreach p hp
        obtain ⟨o', ho'⟩ := hreach q hq
        rw [← ho, ← ho', hall o o']
      · obtain ⟨o, ho⟩ := hreach p hp
        rw [← ho, ← hsub]
        exact horder o
    · rintro ⟨hall, horder⟩
      refine ⟨fun o o' => ?_, fun o => ?_⟩
      · obtain ⟨p, hp, heq⟩ := hmerge o
        obtain ⟨q, hq, heq'⟩ := hmerge o'
        rw [heq, heq', hall p q hp hq]
      · obtain ⟨p, hp, heq⟩ := hmerge o
        rw [heq, hsub]
        exact horder p hp
  · obtain ⟨rfl, rfl⟩ : l = [] ∧ c = [] := by simpa using hne
    refine iff_of_true ⟨fun o o' => by rw [merge_nil, merge_nil], fun o => ?_⟩ ⟨?_, .inr ⟨?_, ?_⟩⟩
    · rw [merge_nil]
      exact List.nil_sublist _
    all_goals simp [candidates, cosineOnly]

variable [PyFloat R] [Hashlib] [Numpy R] [Unicode]

/-- The selections that the two routers make for a prompt, if they return, are settled. -/
def OrderSettled (router : HybridRouter R) (protos : Prototypes R) (prompt : String)
    (pool : List (Expert σ)) : Prop :=
  ∀ l c protos', router.logistic.route prompt pool = .ok l →
    router.cosine.route prompt pool protos = .ok c protos' → router.Settled pool l c

/-- Two runs that differ in the order of the set end in the same way, and a route keeps the cosine
router's order among the names that only it selected, if and only if the selections are settled. -/
theorem order_hidden_iff (router : HybridRouter R) (protos : Prototypes R) (prompt : String)
    (pool : List (Expert σ)) (hnd : (pool.map (·.name)).Nodup) :
    ((∀ setOrder setOrder' : SetOrder,
        router.route setOrder prompt pool protos = router.route setOrder' prompt pool protos) ∧
      ∀ (setOrder : SetOrder) (l c names : List String) (protos' protos'' : Prototypes R),
        router.logistic.route prompt pool = .ok l →
        router.cosine.route prompt pool protos = .ok c protos' →
        router.route setOrder prompt pool protos = .ok names protos'' →
          (names.filter (· ∈ cosineOnly l c)).Sublist c) ↔
    router.OrderSettled protos prompt pool := by
  rcases router.route_error_or prompt pool protos with
    ⟨l, c, protos', hlroute, hcroute⟩ | ⟨x, protos', herror⟩
  · have hl := (LogisticRouter.route_chosen hnd hlroute).nodup
    have hc := (CosineRouter.route_chosen hnd hcroute).nodup
    -- The sub-routes do not see the set, so that only the merge depends on it.
    have hroute : ∀ setOrder, router.route setOrder prompt pool protos =
        .ok (router.merge setOrder pool l c) protos' :=
      fun setOrder => route_eq_ok.mpr ⟨l, c, hlroute, hcroute, rfl⟩
    have hsettled : router.OrderSettled protos prompt pool ↔ router.Settled pool l c := by
      refine ⟨fun h => h l c protos' hlroute hcroute, ?_⟩
      intro h l' c' protos'' hlroute' hcroute'
      cases hlroute.symm.trans hlroute'
      cases hcroute.symm.trans hcroute'
      exact h
    rw [hsettled, ← router.merge_hides_iff pool hl hc]
    refine and_congr ?same ?kept
    case same =>
      refine forall₂_congr fun o o' => ?_
      rw [hroute o, hroute o']
      exact ⟨fun h => (EStateM.Result.ok.inj h).1, fun h => by rw [h]⟩
    case kept =>
      constructor
      · intro h o
        exact h o l c _ protos' protos' hlroute hcroute (hroute o)
      · intro h o l' c' names protos₁ protos₂ hlroute' hcroute' hnames
        cases hlroute.symm.trans hlroute'
        cases hcroute.symm.trans hcroute'
        cases (hroute o).symm.trans hnames
        exact h o
  · -- a router that raises ends the route before the set is built
    refine iff_of_true ⟨fun o o' => by rw [herror o, herror o'], ?_⟩ ?_
    · intro o l c names protos₁ protos₂ _ _ hroute
      cases (herror o).symm.trans hroute
    · intro l c protos₁ hlroute hcroute
      cases (herror .insertion).symm.trans
        (route_eq_ok.mpr ⟨l, c, hlroute, hcroute, rfl⟩)

end HybridRouter

/-- A generalist, and two experts for which the logistic router has no weights. -/
def generalistFirst : List (Expert Unit) :=
  [⟨"a", .generalist, Script.backend {}, ""⟩, ⟨"x", .router, Script.backend {}, ""⟩,
    ⟨"y", .router, Script.backend {}, ""⟩]

/-- A hybrid router with `slots` slots. The logistic router selects the generalist, the cosine
router the two others. -/
def splitHybrid (slots : ℤ) : HybridRouter ℚ where
  logistic := { threshold := 15 / 100, weights := [("generalist", [("bias", 0)])] }
  cosine := { threshold := 1 / 10, embedFn := some fun _ => .ok [1] }
  alpha := 6 / 10
  maxActivation := slots

@[inherit_doc splitHybrid] def splitPrototypes : Prototypes ℚ :=
  [("a", [0]), ("x", [1]), ("y", [1])]

/-- With a single slot, the generalist leaves nothing to the order. -/
theorem HybridRouter.order_hidden_single :
    letI := PyFloat.rat
    letI := Numpy.rat
    letI := Unicode.ascii
    letI := Hashlib.zeros
    (splitHybrid 1).route .insertion "p" generalistFirst splitPrototypes =
      (splitHybrid 1).route .latest "p" generalistFirst splitPrototypes := by
  let _ := PyFloat.rat
  let _ := Numpy.rat
  let _ := Unicode.ascii
  let _ := Hashlib.zeros
  have hsettled : (splitHybrid 1).OrderSettled splitPrototypes "p" generalistFirst := by
    intro l c protos' hl hc
    have hlroute : (splitHybrid 1).logistic.route "p" generalistFirst = .ok ["a"] := by
      decide +kernel
    have hcroute : outcome ((splitHybrid 1).cosine.route "p" generalistFirst splitPrototypes) =
        .ok ["x", "y"] := by
      decide +kernel
    cases hlroute.symm.trans hl
    cases hcroute.symm.trans (congrArg outcome hc)
    exact ⟨by decide, .inl ⟨by decide, by decide⟩⟩
  exact ((order_hidden_iff (splitHybrid 1) splitPrototypes "p" generalistFirst
    (by decide)).mpr hsettled).1 .insertion .latest

/-- With two slots, the order decides which of the two others is invoked. -/
theorem HybridRouter.order_shows :
    letI := PyFloat.rat
    letI := Numpy.rat
    letI := Unicode.ascii
    letI := Hashlib.zeros
    (generalistFirst.map (·.name)).Nodup ∧
      outcome ((splitHybrid 2).route .insertion "p" generalistFirst splitPrototypes) =
        .ok ["a", "x"] ∧
      outcome ((splitHybrid 2).route .latest "p" generalistFirst splitPrototypes) =
        .ok ["a", "y"] :=
  ⟨by decide, by decide +kernel, by decide +kernel⟩

end Chen
