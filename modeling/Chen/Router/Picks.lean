import Chen.Library.LastWrite
import Chen.Phases.Equivalence
import Chen.Router.Proper
import Chen.Server.Routes

/-!
# The experts behind a selection

The logistic router chooses experts and returns their names, and the pipeline looks the names up
in a dictionary that its constructor made of the list of experts. `picks` is the route with the
experts kept, and an expert that was picked is compared with the one its name stands for. Two
experts are the same object if they stand at the same position of the list.
-/

namespace Chen

open Effect

variable {σ R : Type}

/-- An `Expert` object of a list: what it holds, and its position. -/
abbrev Placed (σ : Type) : Type := Expert σ × ℕ

/-! ## The steps of a route, on experts -/

/-- `absoluteFallback`. -/
def fallbackPick (pool : List (Placed σ)) (role : ExpertRole) (picked : List (Placed σ)) :
    List (Placed σ) :=
  if picked.isEmpty then
    match pool.find? (·.1.role = role) with
    | some e => [e]
    | none => pool.head?.toList
  else picked

/-- `appendLastRole`. -/
def appendLastPick (pool : List (Placed σ)) (role : ExpertRole) (missing : Bool)
    (picked : List (Placed σ)) : List (Placed σ) :=
  if missing then
    match pool.find? fun e => e.1.role = role && !(picked.map (·.1.name)).contains e.1.name with
    | some e => picked ++ [e]
    | none => picked
  else picked

/-- `moveLastRole`: the last pick with a name of the role goes to the end, and whatever else has
its name goes. -/
def moveLastPick (pool : List (Placed σ)) (role : ExpertRole) (picked : List (Placed σ)) :
    List (Placed σ) :=
  let names := lastRoleNames (pool.map (·.1)) role
  match (picked.filter fun e => names.contains e.1.name).getLast? with
  | some last => picked.filter (·.1.name ≠ last.1.name) ++ [last]
  | none => picked

/-- `capActivation`. -/
def capPicks (maxActivation : ℤ) (picked : List (Placed σ)) : List (Placed σ) :=
  if 0 < maxActivation then sliceTo picked maxActivation else picked

section Names

variable (pool : List (Placed σ)) (role : ExpertRole) (picked : List (Placed σ))

/-- The fallback on experts names what the fallback on names does. -/
theorem map_name_fallbackPick :
    (fallbackPick pool role picked).map (·.1.name) =
      absoluteFallback (pool.map (·.1)) role (picked.map (·.1.name)) := by
  rw [fallbackPick, absoluteFallback, List.isEmpty_map, List.find?_map]
  split
  · simp only [Function.comp_def]
    cases pool.find? (·.1.role = role) with
    | some e => rfl
    | none => cases pool <;> rfl
  · rfl

/-- So does the appended expert of the forced role. -/
theorem map_name_appendLastPick (missing : Bool) :
    (appendLastPick pool role missing picked).map (·.1.name) =
      appendLastRole (pool.map (·.1)) role missing (picked.map (·.1.name)) := by
  rw [appendLastPick, appendLastRole, List.find?_map]
  split
  · simp only [Function.comp_def]
    cases pool.find? fun e => e.1.role = role && !(picked.map (·.1.name)).contains e.1.name with
    | some e => exact List.map_append
    | none => rfl
  · rfl

/-- So does the expert that is moved to the end. -/
theorem map_name_moveLastPick :
    (moveLastPick pool role picked).map (·.1.name) =
      moveLastRole (pool.map (·.1)) role (picked.map (·.1.name)) := by
  rw [moveLastPick, moveLastRole, List.filter_map, List.getLast?_map]
  simp only [Function.comp_def]
  cases (picked.filter fun e =>
      (lastRoleNames (pool.map (·.1)) role).contains e.1.name).getLast? with
  | none => rfl
  | some last =>
    have hkeep : (picked.map (·.1.name)).filter (· ≠ last.1.name) =
        (picked.filter (·.1.name ≠ last.1.name)).map (·.1.name) := List.filter_map
    rw [Option.map_some, List.map_append, ← hkeep]
    rfl

/-- So does the cap. -/
theorem map_name_capPicks (m : ℤ) :
    (capPicks m picked).map (·.1.name) = capActivation m (picked.map (·.1.name)) := by
  rw [capPicks, capActivation, apply_ite (List.map _), map_sliceTo]

end Names

section Members

variable {pool picked : List (Placed σ)} {role : ExpertRole} {e : Placed σ}

/-- The fallback is an expert of the list. -/
theorem mem_of_mem_fallbackPick (h : e ∈ fallbackPick pool role picked) : e ∈ picked ∨ e ∈ pool := by
  rw [fallbackPick] at h
  split at h
  · split at h
    · next hfind => exact .inr (List.mem_singleton.mp h ▸ List.mem_of_find?_eq_some hfind)
    · exact .inr (List.mem_of_mem_head? (Option.mem_toList.mp h))
  · exact .inl h

/-- So is an appended expert. -/
theorem mem_of_mem_appendLastPick {missing : Bool} (h : e ∈ appendLastPick pool role missing picked) :
    e ∈ picked ∨ e ∈ pool := by
  rw [appendLastPick] at h
  split at h
  · split at h
    · next hfind =>
      refine (List.mem_append.mp h).imp_right fun h => ?_
      exact List.mem_singleton.mp h ▸ List.mem_of_find?_eq_some hfind
    · exact .inl h
  · exact .inl h

/-- Moving an expert to the end picks no other. -/
theorem mem_of_mem_moveLastPick (h : e ∈ moveLastPick pool role picked) : e ∈ picked := by
  rw [moveLastPick] at h
  split at h
  · next last hlast =>
    rcases List.mem_append.mp h with h | h
    · exact List.mem_of_mem_filter h
    · exact List.mem_singleton.mp h ▸ List.mem_of_mem_filter (List.mem_of_mem_getLast? hlast)
  · exact h

/-- Nor does the cap. -/
theorem mem_of_mem_capPicks {m : ℤ} (h : e ∈ capPicks m picked) : e ∈ picked := by
  rw [capPicks] at h
  split at h
  · exact (sliceTo_sublist ..).subset h
  · exact h

end Members

namespace LogisticRouter

open Ranking

variable [PyFloat R]

/-- `considerExpert`. -/
def considerPick (scores : Dict String R) (best : Dict String (R × Placed σ)) (e : Placed σ) :
    Dict String (R × Placed σ) :=
  let s := expertScore scores e.1
  match best.get? e.1.role.value with
  | none => best.set e.1.role.value (s, e)
  | some (t, _) => if t < s then best.set e.1.role.value (s, e) else best

/-- `ranked`. -/
def rankedPicks (router : LogisticRouter R) (scores : Dict String R) (pool : List (Placed σ)) :
    List (R × Placed σ) :=
  rank (·.1) (((pool.foldl (considerPick scores) []).map (·.2)).filter (router.threshold ≤ ·.1))

omit [PyFloat R] in
/-- `select`. -/
def selectPicks (router : LogisticRouter R) (ranked : List (R × Placed σ)) : List (Placed σ) :=
  let selected := (sliceTo ranked router.maxActivation).map (·.2)
  match ranked with
  | best :: _ => if selected.length < router.minActivation then [best.2] else selected
  | [] => selected

/-- `route`, on experts. -/
def picks [Unicode] (router : LogisticRouter R) (prompt : String) (pool : List (Placed σ)) :
    Except Exn (List (Placed σ)) :=
  if pool.isEmpty then .ok []
  else do
    let scores ← router.score prompt
    let role := router.forceLastRole
    let picked := fallbackPick pool role (router.selectPicks (router.rankedPicks scores pool))
    let missing :=
      !((picked.map (·.1.name)).map (expertRoleName (pool.map (·.1)))).contains role.value
    let picked := moveLastPick pool role (appendLastPick pool role missing picked)
    pure (capPicks router.maxActivation picked)

/-- Positions do not matter for who is the best of a role. -/
theorem roleBest_map_fst (scores : Dict String R) (pool : List (Placed σ)) :
    roleBest scores (pool.map (·.1)) =
      (pool.foldl (considerPick scores) []).map fun kv => (kv.1, kv.2.1, kv.2.2.1) := by
  let value := fun v : R × Placed σ => (v.1, v.2.1)
  -- One step on the placed experts is one on the experts.
  have hstep : ∀ (best : Dict String (R × Placed σ)) (e : Placed σ),
      considerExpert scores (best.map fun kv => (kv.1, value kv.2)) e.1 =
        (considerPick scores best e).map fun kv => (kv.1, value kv.2) := by
    intro best e
    have hset : Dict.set (best.map fun kv => (kv.1, value kv.2)) e.1.role.value
        (value (expertScore scores e.1, e)) = _ :=
      Dict.set_map_items best (fun _ => value) e.1.role.value (expertScore scores e.1, e)
    rw [considerExpert, considerPick, Dict.get?_map_values best value]
    cases best.get? e.1.role.value with
    | none => exact hset
    | some old =>
      simp only [Option.map_some, value, apply_ite (List.map _)]
      exact congrArg (ite _ · _) hset
  have hfold : ∀ best : Dict String (R × Placed σ),
      (pool.map (·.1)).foldl (considerExpert scores) (best.map fun kv => (kv.1, value kv.2)) =
        (pool.foldl (considerPick scores) best).map fun kv => (kv.1, value kv.2) := by
    induction pool with
    | nil => exact fun _ => rfl
    | cons e pool ih =>
      intro best
      rw [List.map_cons, List.foldl_cons, List.foldl_cons, hstep, ih]
  exact hfold []

/-- Nor do they for the ranking. -/
theorem ranked_map_fst (router : LogisticRouter R) (scores : Dict String R)
    (pool : List (Placed σ)) :
    router.ranked scores (pool.map (·.1)) =
      (router.rankedPicks scores pool).map fun p => (p.1, p.2.1) := by
  let best := pool.foldl (considerPick scores) []
  have hvalues : (best.map fun kv => (kv.1, kv.2.1, kv.2.2.1)).map (·.2) =
      (best.map (·.2)).map fun p => (p.1, p.2.1) := by
    rw [List.map_map, List.map_map]
    rfl
  rw [ranked, rankedPicks, roleBest_map_fst, hvalues, List.filter_map, rank, rank]
  exact (List.map_insertionSort (fun x y : R × Placed σ => y.1 ≤ x.1)
    (fun a b : R × Expert σ => b.1 ≤ a.1) (fun p => (p.1, p.2.1)) _ fun _ _ _ _ => Iff.rfl).symm

omit [PyFloat R] in
/-- The selection on experts has the names of the selection. -/
theorem map_name_selectPicks (router : LogisticRouter R) (ranked : List (R × Placed σ)) :
    (router.selectPicks ranked).map (·.1.name) =
      router.select (ranked.map fun p => (p.1, p.2.1)) := by
  have hselected : (((sliceTo ranked router.maxActivation).map (·.2)).map (·.1.name)) =
      (sliceTo (ranked.map fun p => (p.1, p.2.1)) router.maxActivation).map (·.2.name) := by
    rw [← map_sliceTo, List.map_map, List.map_map]
    rfl
  cases ranked with
  | nil => exact hselected
  | cons best rest =>
    rw [List.map_cons] at hselected ⊢
    rw [selectPicks, select, ← hselected, List.length_map, List.length_map, List.length_map,
      apply_ite (List.map _)]
    rfl

/-- A route returns the names of the experts it picks, whatever the names of the pool. -/
theorem route_eq_picks [Unicode] (router : LogisticRouter R) (prompt : String)
    (pool : List (Placed σ)) :
    router.route prompt (pool.map (·.1)) =
      (router.picks prompt pool).map (List.map (·.1.name)) := by
  rw [route, picks, List.isEmpty_map]
  split
  · rfl
  · cases router.score prompt with
    | error x => rfl
    | ok scores =>
      refine congrArg Except.ok ?_
      rw [map_name_capPicks, map_name_moveLastPick, map_name_appendLastPick,
        map_name_fallbackPick, map_name_selectPicks, ranked_map_fst]

omit [PyFloat R] in
/-- The selection takes ranked experts. -/
theorem mem_of_mem_selectPicks {router : LogisticRouter R} {ranked : List (R × Placed σ)}
    {e : Placed σ} (h : e ∈ router.selectPicks ranked) : e ∈ ranked.map (·.2) := by
  have hslice : ∀ {e}, e ∈ (sliceTo ranked router.maxActivation).map (·.2) →
      e ∈ ranked.map (·.2) := fun he => List.map_subset _ (sliceTo_sublist ..).subset he
  cases ranked with
  | nil => exact hslice h
  | cons best rest =>
    rw [selectPicks] at h
    split at h
    · exact List.mem_singleton.mp h ▸ List.mem_cons_self ..
    · exact hslice h

/-- The best experts of the roles are experts of the list. -/
theorem mem_of_mem_rankedPicks {router : LogisticRouter R} {scores : Dict String R}
    {pool : List (Placed σ)} {e : Placed σ}
    (h : e ∈ (router.rankedPicks scores pool).map (·.2)) : e ∈ pool := by
  -- every expert that the dictionary of the best ones has was in it before or is of the pool
  have hfold : ∀ (all pool : List (Placed σ)) (best : Dict String (R × Placed σ)),
      (∀ kv ∈ best, kv.2.2 ∈ all) → pool ⊆ all →
        ∀ kv ∈ pool.foldl (considerPick scores) best, kv.2.2 ∈ all := by
    intro all pool
    induction pool with
    | nil => exact fun _ h _ => h
    | cons e pool ih =>
      intro best hbest hpool
      obtain ⟨he, hpool⟩ := List.cons_subset.mp hpool
      refine ih _ (fun kv hkv => ?_) hpool
      have hset : kv ∈ best.set e.1.role.value (expertScore scores e.1, e) → kv.2.2 ∈ all := by
        intro hkv
        rcases Dict.mem_set hkv with rfl | hkv
        · exact he
        · exact hbest kv hkv
      rw [considerPick] at hkv
      split at hkv
      · exact hset hkv
      · split at hkv
        · exact hset hkv
        · exact hbest kv hkv
  obtain ⟨p, hp, rfl⟩ := List.mem_map.mp h
  rw [rankedPicks, mem_rank] at hp
  obtain ⟨kv, hkv, rfl⟩ := List.mem_map.mp (List.mem_of_mem_filter hp)
  exact hfold pool pool [] (List.forall_mem_nil _) (List.Subset.refl pool) kv hkv

/-- A route picks experts of its list. -/
theorem mem_of_mem_picks [Unicode] {router : LogisticRouter R} {prompt : String}
    {pool picks : List (Placed σ)} (h : router.picks prompt pool = .ok picks) : picks ⊆ pool := by
  rw [LogisticRouter.picks] at h
  split at h
  · cases h
    exact List.nil_subset _
  obtain ⟨scores, -, hpicks⟩ := except_bind_eq_ok.mp h
  cases hpicks
  intro e he
  have hcapped := mem_of_mem_capPicks he
  rcases mem_of_mem_appendLastPick (mem_of_mem_moveLastPick hcapped) with he | he
  · rcases mem_of_mem_fallbackPick he with he | he
    · exact mem_of_mem_rankedPicks (mem_of_mem_selectPicks he)
    · exact he
  · exact he

end LogisticRouter

/-! ## What a name stands for -/

/-- The list has the expert, and no other of its name behind it. -/
def Unshadowed (experts : List (Expert σ)) (e : Placed σ) : Prop :=
  experts[e.2]? = some e.1 ∧ ∀ j e', e.2 < j → experts[j]? = some e' → e'.name ≠ e.1.name

/-- `experts_by_name.get(name)`, with the position of the object. -/
def Pipeline.object (p : Pipeline σ) (name : String) : Option (Placed σ) :=
  LastWrite.last (·.1.name) p.experts.zipIdx name

/-- The expert of that object is the one that `get_expert` returns. -/
theorem Pipeline.getExpert_eq_ok_iff (p : Pipeline σ) (name : String) (e : Expert σ) :
    p.getExpert name = .ok e ↔ ∃ i, p.object name = some (e, i) := by
  have hreverse : p.experts.reverse = p.experts.zipIdx.reverse.map (·.1) := by
    rw [List.map_reverse, List.zipIdx_map_fst]
  have hfind : p.find name = (p.object name).map (·.1) := by
    rw [Pipeline.find, hreverse, List.find?_map]
    rfl
  rw [getExpert, hfind]
  cases p.object name with
  | none => simp
  | some e' => simp [Prod.ext_iff]

/-- What stands at a position of a list with positions. -/
theorem getElem?_zipIdx_eq_some_iff {experts : List (Expert σ)} {j : ℕ} {e : Placed σ} :
    experts.zipIdx[j]? = some e ↔ experts[j]? = some e.1 ∧ e.2 = j := by
  rw [List.getElem?_zipIdx, Option.map_eq_some_iff]
  constructor
  · rintro ⟨e', he', rfl⟩
    exact ⟨he', Nat.zero_add j⟩
  · rintro ⟨he, hplace⟩
    exact ⟨e.1, he, Prod.ext rfl ((Nat.zero_add j).trans hplace.symm)⟩

/-- The dictionary of the constructor keeps the last expert of each name. -/
theorem Pipeline.object_eq_some_iff (p : Pipeline σ) (e : Placed σ) :
    p.object e.1.name = some e ↔ Unshadowed p.experts e := by
  have hlast : p.object e.1.name = some e ↔ ∃ l r, p.experts.zipIdx = l ++ e :: r ∧
      ∀ x ∈ r, x.1.name ≠ e.1.name := LastWrite.last_eq_some_iff fun x : Placed σ => x.1.name
  rw [hlast]
  constructor
  · rintro ⟨l, r, hsplit, hr⟩
    obtain ⟨he, hplace⟩ : p.experts[l.length]? = some e.1 ∧ e.2 = l.length :=
      getElem?_zipIdx_eq_some_iff.mp (by simp [hsplit])
    refine ⟨hplace ▸ he, fun j e' hj he' => hr (e', j) ?_⟩
    -- an expert at a later place is in the rest behind the split
    have hbehind : p.experts.zipIdx[j]? = some (e', j) :=
      getElem?_zipIdx_eq_some_iff.mpr ⟨he', rfl⟩
    obtain ⟨k, rfl⟩ : ∃ k, j = l.length + (k + 1) := ⟨j - l.length - 1, by omega⟩
    rw [hsplit, List.getElem?_append_right (Nat.le_add_right ..), Nat.add_sub_cancel_left,
      List.getElem?_cons_succ] at hbehind
    exact List.mem_of_getElem? hbehind
  · rintro ⟨he, hrest⟩
    obtain ⟨l, r, hsplit⟩ :=
      List.append_of_mem (List.mem_of_getElem? (getElem?_zipIdx_eq_some_iff.mpr ⟨he, rfl⟩))
    refine ⟨l, r, hsplit, fun x hx => ?_⟩
    have hat : p.experts.zipIdx[l.length]? = some e := by simp [hsplit]
    have hplace : e.2 = l.length := (getElem?_zipIdx_eq_some_iff.mp hat).2
    obtain ⟨k, hk⟩ := List.mem_iff_getElem?.mp hx
    obtain ⟨hexpert, hbehind⟩ : p.experts[l.length + (k + 1)]? = some x.1 ∧
        x.2 = l.length + (k + 1) :=
      getElem?_zipIdx_eq_some_iff.mp (by
        rw [hsplit, List.getElem?_append_right (Nat.le_add_right ..), Nat.add_sub_cancel_left,
          List.getElem?_cons_succ, hk])
    exact hrest _ x.1 (by omega) hexpert

/-- With distinct names every expert is the one its name stands for. -/
theorem unshadowed_of_nodup {experts : List (Expert σ)} (hnd : (experts.map (·.name)).Nodup)
    {e : Placed σ} (he : e ∈ experts.zipIdx) : Unshadowed experts e := by
  obtain ⟨i, hi⟩ := List.mem_iff_getElem?.mp he
  obtain ⟨hexpert, rfl⟩ := getElem?_zipIdx_eq_some_iff.mp hi
  refine ⟨hexpert, fun j e' hj he' hname => ?_⟩
  have hlength : j < (experts.map (·.name)).length := by
    rw [List.length_map]
    exact (List.getElem?_eq_some_iff.mp he').1
  refine List.nodup_iff_getElem?_ne_getElem?.mp hnd e.2 j hj hlength ?_
  rw [List.getElem?_map, List.getElem?_map, hexpert, he', Option.map_some, Option.map_some, hname]

namespace RoutingPipeline

/-- The constructor takes the experts and the router as they are. -/
theorem create_eq_ok {experts : List (Expert σ)} {cost : CostModel} {router : Router σ}
    {handoff : Handoff} {maxTokensPerExpert : ℤ} {writeIntermediateToMemory : Bool}
    {memoryRetrieveK : ℤ} {fallbackToText : Bool} {p : RoutingPipeline σ}
    (h : create experts cost (some router) handoff maxTokensPerExpert writeIntermediateToMemory
      memoryRetrieveK fallbackToText = .ok p) : p.experts = experts ∧ p.router = router := by
  unfold create at h
  obtain ⟨base, hbase, hp⟩ := except_bind_eq_ok.mp h
  cases hp
  rw [Pipeline.create] at hbase
  split at hbase
  · cases hbase
  · cases hbase
    exact ⟨rfl, rfl⟩

/-- For every list of experts that the constructor accepts, the names that the router returns are
those of the experts it picked, and `get_expert` finds the objects of the dictionary under them.
These are the experts that were picked if and only if behind none of them the list has another of
its name. -/
theorem resolves_picks_iff [PyFloat R] [Unicode] (router : LogisticRouter R)
    (experts : List (Expert σ)) (cost : CostModel) (handoff : Handoff)
    (maxTokensPerExpert : ℤ) (writeIntermediateToMemory : Bool) (memoryRetrieveK : ℤ)
    (fallbackToText : Bool) (p : RoutingPipeline σ)
    (hp : create experts cost (some router.toRouter) handoff maxTokensPerExpert
      writeIntermediateToMemory memoryRetrieveK fallbackToText = .ok p)
    (prompt : String) (picks : List (Placed σ))
    (hpicks : router.picks prompt experts.zipIdx = .ok picks) :
    p.router.route prompt p.experts = .ok (picks.map (·.1.name)) ∧
      (∀ name e, p.getExpert name = .ok e ↔ ∃ i, p.object name = some (e, i)) ∧
      ((∀ e ∈ picks, p.object e.1.name = some e) ↔ ∀ e ∈ picks, Unshadowed experts e) := by
  obtain ⟨hexperts, hrouter⟩ := create_eq_ok hp
  refine ⟨?_, p.getExpert_eq_ok_iff, ?_⟩
  · have hroute := router.route_eq_picks prompt experts.zipIdx
    rw [List.zipIdx_map_fst, hpicks] at hroute
    rw [hexperts, hrouter]
    exact hroute
  · rw [← hexperts]
    exact forall₂_congr fun e _ => p.object_eq_some_iff e

/-- Two experts with two names: each is found under its name. -/
theorem resolves_picks_duo :
    letI := PyFloat.rat
    letI := Unicode.ascii
    ∃ (p : RoutingPipeline Unit) (picks : List (Placed Unit)),
      picks.map (·.1.name) = ["a", "b"] ∧
      p.router.route "p" p.experts = .ok (picks.map (·.1.name)) ∧
      ∀ e ∈ picks, p.object e.1.name = some e := by
  let _ := PyFloat.rat
  let _ := Unicode.ascii
  have hnames : ((evenLogistic 2).picks "p" analystFirst.zipIdx).map (List.map (·.1.name)) =
      .ok ["a", "b"] := by
    decide +kernel
  cases hpicks : (evenLogistic 2).picks "p" analystFirst.zipIdx with
  | error x =>
    rw [hpicks] at hnames
    cases hnames
  | ok picks =>
    rw [hpicks] at hnames
    obtain ⟨hroute, -, hiff⟩ := resolves_picks_iff (evenLogistic 2) analystFirst {} .text 256 false
      0 true _ rfl "p" picks hpicks
    refine ⟨_, picks, Except.ok.inj hnames, hroute, hiff.mpr fun e he => ?_⟩
    exact unshadowed_of_nodup (by decide) (LogisticRouter.mem_of_mem_picks hpicks he)

/-- A synthesizer, and an analyst after it that has its name. -/
def namesakes : List (Expert Unit) :=
  [⟨"a", .synthesizer, Script.backend {}, ""⟩, ⟨"a", .analyst, Script.backend {}, ""⟩]

/-- The constructor accepts the two, the router picks the synthesizer, and the analyst runs. -/
theorem namesake_runs :
    letI := PyFloat.rat
    letI := Unicode.ascii
    ∃ (p : RoutingPipeline Unit) (picked : Placed Unit) (found : Expert Unit),
      create namesakes {} (some (evenLogistic 1).toRouter) .text 256 false 0 true = .ok p ∧
      (evenLogistic 1).picks "p" namesakes.zipIdx = .ok [picked] ∧
      p.router.route "p" p.experts = .ok [picked.1.name] ∧
      p.getExpert picked.1.name = .ok found ∧ picked.1.role = .synthesizer ∧
      found.role = .analyst := by
  let _ := PyFloat.rat
  let _ := Unicode.ascii
  exact ⟨_, (⟨"a", .synthesizer, Script.backend {}, ""⟩, 0), ⟨"a", .analyst, Script.backend {}, ""⟩,
    rfl, by with_unfolding_all rfl, by decide +kernel, rfl, rfl, rfl⟩

end RoutingPipeline

end Chen
