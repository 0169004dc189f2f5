import Chen.Library.LastWrite
import Chen.Library.Machine
import Chen.Python.Dict
import Chen.Python.Exception
import Mathlib.Algebra.Order.Ring.Rat
import Mathlib.Tactic.Linarith

/-!
# Carbon-aware scheduling

The scheduler asks a service for the carbon intensity of a zone and keeps each answer for a while. A
call reads the clock up to three times, and the service answers it or fails. Logging is left out.
-/

namespace Chen

open LastWrite

/-- Carbon intensity for a grid zone at a point in time. -/
structure CarbonIntensity where
  zone : String
  intensityGco2Kwh : ℚ
  renewableRatio : ℚ := 0
  fossilRatio : ℚ := 0
  timestamp : ℚ
  source : String := "unknown"
deriving DecidableEq

/-- `_ZONE_DEFAULTS`. -/
def zoneDefaults : Dict String ℚ :=
  [("US-NW", 50), ("US-CA", 100), ("US-SE", 400), ("US-TX", 350), ("US-NY", 200), ("FR", 50),
    ("DE", 350), ("GB", 250), ("NO", 20), ("PL", 600), ("CN", 550), ("IN", 700), ("AU", 500),
    ("DEFAULT", 400)]

/-- `_ZONE_DEFAULTS["DEFAULT"]`. -/
def defaultIntensity : ℚ := 400

/-- What the service answers, as far as the scheduler reads it. -/
structure CarbonData where
  carbonIntensity : Option ℚ
  renewableRatio : Option ℚ
  fossilRatio : Option ℚ

/-- The fields of the scheduler, without its cache. -/
structure CarbonAwareScheduler where
  enabled : Bool := false
  apiKey : Option String := none
  defaultZone : String := "US-NW"
  cacheTtl : ℚ := 300
  carbonWeight : ℚ := 1 / 5

/-- `_cache`: for each zone the time of an answer, and the answer. -/
abbrev CarbonCache : Type := Dict String (ℚ × CarbonIntensity)

/-- A call, with what the clock shows when the cache is looked up, when an answer is made and when
it is stored, and with what the service answers. -/
structure CarbonCall where
  zone : Option String
  now : ℚ
  made : ℚ
  stored : ℚ
  response : Except Exn CarbonData

namespace CarbonAwareScheduler

/-- `x or y`, where `x` is a string or `None`. -/
def orElse (x : Option String) (y : String) : String := if x.getD "" = "" then y else x.getD ""

/-- The constructor with its `__post_init__`. -/
def create (environ : String → Option String) (s : CarbonAwareScheduler) : CarbonAwareScheduler :=
  if s.enabled then
    { s with
      apiKey :=
        if s.apiKey.getD "" = "" then environ "CHEN_ELECTRICITY_MAPS_API_KEY" else s.apiKey
      defaultZone := (environ "CHEN_DEFAULT_ZONE").getD s.defaultZone }
  else s

/-- `from_env`. -/
def fromEnv (environ : String → Option String) : CarbonAwareScheduler :=
  create environ { enabled := (environ "CHEN_CARBON_AWARE").getD "" = "1" }

variable (s : CarbonAwareScheduler)

/-- The zone that a call asks about. -/
def zoneOf (c : CarbonCall) : String := orElse c.zone s.defaultZone

/-- `_fetch_from_api`. -/
def fetchFromApi (zone : String) (made : ℚ) (response : Except Exn CarbonData) :
    Except Exn CarbonIntensity := do
  let data ← response
  pure
    { zone
      intensityGco2Kwh := data.carbonIntensity.getD defaultIntensity
      renewableRatio := data.renewableRatio.getD 0
      fossilRatio := data.fossilRatio.getD 0
      timestamp := made
      source := "electricity_maps" }

/-- The answer that a call makes itself: the service's, or else the default of the zone. -/
def answerOf (c : CarbonCall) : CarbonIntensity :=
  let zone := s.zoneOf c
  let byDefault : CarbonIntensity :=
    { zone
      intensityGco2Kwh := (zoneDefaults.get? zone).getD defaultIntensity
      timestamp := c.made
      source := "zone_default" }
  if s.apiKey.getD "" ≠ "" then
    match fetchFromApi zone c.made c.response with
    | .ok intensity => intensity
    | .error _ => byDefault
  else byDefault

/-- `get_intensity`. -/
def getIntensity (cache : CarbonCache) (c : CarbonCall) : CarbonIntensity × CarbonCache :=
  let zone := s.zoneOf c
  let fetched := (s.answerOf c, cache.set zone (c.stored, s.answerOf c))
  match cache.get? zone with
  | some (ts, cached) => if c.now - ts < s.cacheTtl then (cached, cache) else fetched
  | none => fetched

/-- The score of an expert whose zone has the intensity. -/
def adjusted (baseScore : ℚ) (intensity : CarbonIntensity) : ℚ :=
  let carbonScore := max 0 (1 - intensity.intensityGco2Kwh / 700)
  baseScore * (1 - s.carbonWeight) + carbonScore * s.carbonWeight

/-- `score_expert`. -/
def scoreExpert (cache : CarbonCache) (c : CarbonCall) (baseScore : ℚ) : ℚ × CarbonCache :=
  if s.enabled then
    let (intensity, cache) := s.getIntensity cache c
    (s.adjusted baseScore intensity, cache)
  else (baseScore, cache)

/-- `estimate_co2`. -/
def estimateCo2 (cache : CarbonCache) (c : CarbonCall) (energyKwh : ℚ) : ℚ × CarbonCache :=
  let (intensity, cache) := s.getIntensity cache c
  (energyKwh * intensity.intensityGco2Kwh, cache)

/-! ## Runs -/

/-- The cache after a series of calls. -/
def after (calls : List CarbonCall) : CarbonCache :=
  Machine.run (Machine.next s.getIntensity) [] calls

/-- The cache has an answer for the call that is not too old. -/
def Hits (cache : CarbonCache) (c : CarbonCall) : Prop :=
  ∃ p ∈ cache.get? (s.zoneOf c), c.now - p.1 < s.cacheTtl

instance (cache : CarbonCache) (c : CarbonCall) : Decidable (s.Hits cache c) :=
  inferInstanceAs (Decidable (∃ p ∈ cache.get? (s.zoneOf c), _))

/-- The calls of a run that the cache did not answer: these are all that go to the service. -/
def misses : CarbonCache → List CarbonCall → List CarbonCall
  | _, [] => []
  | cache, c :: calls =>
    (if s.Hits cache c then [] else [c]) ++ misses (s.getIntensity cache c).2 calls

/-- The clock does not go back. -/
def Timely (calls : List CarbonCall) : Prop :=
  (∀ c ∈ calls, c.now ≤ c.stored) ∧ calls.Pairwise (·.stored ≤ ·.now)

/-- A call of one of the three methods. -/
inductive Op
  | getIntensity (c : CarbonCall)
  | scoreExpert (c : CarbonCall) (baseScore : ℚ)
  | estimateCo2 (c : CarbonCall) (energyKwh : ℚ)

/-- Perform a call: it gives an intensity or a number. -/
def perform (cache : CarbonCache) : Op → (CarbonIntensity ⊕ ℚ) × CarbonCache
  | .getIntensity c => Prod.map .inl id (s.getIntensity cache c)
  | .scoreExpert c baseScore => Prod.map .inr id (s.scoreExpert cache c baseScore)
  | .estimateCo2 c energyKwh => Prod.map .inr id (s.estimateCo2 cache c energyKwh)

/-- What a call looks up: a scheduler that is not enabled scores without a lookup. -/
def lookup : Op → Option CarbonCall
  | .getIntensity c => some c
  | .scoreExpert c _ => if s.enabled then some c else none
  | .estimateCo2 c _ => some c

/-- What a call makes of the intensity. -/
def result : Op → CarbonIntensity → CarbonIntensity ⊕ ℚ
  | .getIntensity _, intensity => .inl intensity
  | .scoreExpert _ baseScore, intensity => .inr (s.adjusted baseScore intensity)
  | .estimateCo2 _ energyKwh, intensity => .inr (energyKwh * intensity.intensityGco2Kwh)

variable {s} {cache : CarbonCache} {c : CarbonCall}

/-- A call that looks a zone up answers from its intensity. -/
theorem perform_of_lookup {op : Op} (h : s.lookup op = some c) :
    s.perform cache op =
      (s.result op (s.getIntensity cache c).1, (s.getIntensity cache c).2) := by
  cases op with
  | getIntensity c' =>
    cases h
    rfl
  | scoreExpert c' baseScore =>
    obtain ⟨henabled, heq⟩ := Option.ite_none_right_eq_some.mp h
    cases heq
    rw [perform, scoreExpert, if_pos henabled]
    rfl
  | estimateCo2 c' energyKwh =>
    cases h
    rfl

/-- A call that looks nothing up leaves the cache as it is. -/
theorem perform_of_lookup_none {op : Op} (h : s.lookup op = none) :
    (s.perform cache op).2 = cache := by
  cases op with
  | getIntensity c => cases h
  | scoreExpert c baseScore =>
    have hoff : ¬s.enabled := fun hon => by simp [lookup, hon] at h
    rw [perform, scoreExpert, if_neg hoff]
    rfl
  | estimateCo2 c energyKwh => cases h

/-- The cache sees the lookups only. -/
theorem run_perform (ops : List Op) :
    Machine.run (Machine.next s.perform) [] ops = s.after (ops.filterMap s.lookup) := by
  induction ops using List.reverseRecOn with
  | nil => rfl
  | append_singleton ops op ih =>
    rw [Machine.run_append, ih, Machine.run_cons, Machine.run_nil, Machine.next,
      List.filterMap_append]
    cases hop : s.lookup op with
    | none =>
      rw [perform_of_lookup_none hop, List.filterMap_cons_none hop, List.filterMap_nil,
        List.append_nil]
    | some c =>
      rw [perform_of_lookup hop, List.filterMap_cons_some hop, List.filterMap_nil, after, after,
        Machine.run_append]
      rfl

/-- A hit answers what is stored, which is younger than `cache_ttl`. -/
theorem getIntensity_of_hits (h : s.Hits cache c) :
    ∃ ts, cache.get? (s.zoneOf c) = some (ts, (s.getIntensity cache c).1) ∧
      c.now - ts < s.cacheTtl ∧ (s.getIntensity cache c).2 = cache := by
  obtain ⟨⟨ts, cached⟩, hget, hage⟩ := h
  have hcall : s.getIntensity cache c = (cached, cache) := by
    rw [getIntensity, Option.mem_def.mp hget]
    exact if_pos hage
  rw [hcall]
  exact ⟨ts, hget, hage, rfl⟩

/-- A miss asks, and stores the answer. -/
theorem getIntensity_of_not_hits (h : ¬s.Hits cache c) :
    s.getIntensity cache c =
      (s.answerOf c, cache.set (s.zoneOf c) (c.stored, s.answerOf c)) := by
  rw [getIntensity]
  cases hget : cache.get? (s.zoneOf c) with
  | none => rfl
  | some p => exact if_neg fun hage => h ⟨p, hget, hage⟩

/-- The last call of a series is a miss unless the cache it meets has its zone. -/
theorem misses_append (cache : CarbonCache) (calls : List CarbonCall) (c : CarbonCall) :
    s.misses cache (calls ++ [c]) = s.misses cache calls ++
      if s.Hits (Machine.run (Machine.next s.getIntensity) cache calls) c then [] else [c] := by
  induction calls generalizing cache with
  | nil =>
    rw [List.nil_append, misses, misses, misses, List.append_nil]
    rfl
  | cons c' calls ih =>
    rw [List.cons_append, misses, misses, ih, List.append_assoc]
    rfl

/-- The cache has of each zone what the last call made of it that went to the service. -/
theorem get?_after (calls : List CarbonCall) (zone : String) :
    (s.after calls).get? zone =
      (last s.zoneOf (s.misses [] calls) zone).map fun c => (c.stored, s.answerOf c) := by
  induction calls using List.reverseRecOn with
  | nil => rfl
  | append_singleton calls c ih =>
    rw [after, Machine.run_append, Machine.run_cons, Machine.run_nil, misses_append]
    change Dict.get? (s.getIntensity (s.after calls) c).2 zone =
      (last s.zoneOf (s.misses [] calls ++ if s.Hits (s.after calls) c then [] else [c]) zone).map _
    by_cases hhit : s.Hits (s.after calls) c
    · obtain ⟨-, -, -, hcache⟩ := getIntensity_of_hits hhit
      rw [hcache, if_pos hhit, List.append_nil, ih]
    · rw [getIntensity_of_not_hits hhit, if_neg hhit, last, List.reverse_append]
      by_cases hzone : s.zoneOf c = zone
      · subst hzone
        rw [Dict.get?_set_self]
        simp
      · rw [Dict.get?_set_of_ne _ (Ne.symm hzone), ih, last]
        simp [hzone]

/-- Misses are calls of the series. -/
theorem misses_sublist (cache : CarbonCache) (calls : List CarbonCall) :
    List.Sublist (s.misses cache calls) calls := by
  induction calls generalizing cache with
  | nil => exact List.Sublist.refl _
  | cons c calls ih =>
    rw [misses]
    by_cases hhit : s.Hits cache c
    · rw [if_pos hhit]
      exact (ih _).cons c
    · rw [if_neg hhit]
      exact (ih _).cons_cons c

/-- An answer is what the last call made of the zone that went to the service, and unless that is
the call itself it is not too old. -/
theorem getIntensity_after (pre : List CarbonCall) (c : CarbonCall) :
    ∃ c', last s.zoneOf (s.misses [] (pre ++ [c])) (s.zoneOf c) = some c' ∧
      (s.getIntensity (s.after pre) c).1 = s.answerOf c' ∧
      (c' = c ∨ c.now - c'.stored < s.cacheTtl) := by
  rw [misses_append]
  by_cases hhit : s.Hits (s.after pre) c
  · obtain ⟨ts, hget, hage, -⟩ := getIntensity_of_hits hhit
    rw [get?_after, Option.map_eq_some_iff] at hget
    obtain ⟨c', hlast, heq⟩ := hget
    obtain ⟨rfl, hanswer⟩ := Prod.mk.inj heq
    refine ⟨c', ?_, hanswer.symm, .inr hage⟩
    rw [← after, if_pos hhit, List.append_nil]
    exact hlast
  · refine ⟨c, ?_, by rw [getIntensity_of_not_hits hhit], .inl rfl⟩
    rw [← after, if_neg hhit, last, List.reverse_append]
    simp

/-- A call that goes to the service comes at least `cacheTtl` after every earlier one that went
there for the zone. -/
theorem age_of_not_hits {pre : List CarbonCall} {c : CarbonCall} (h : Timely pre)
    (hhit : ¬s.Hits (s.after pre) c) :
    ∀ c' ∈ s.misses [] pre, s.zoneOf c' = s.zoneOf c → s.cacheTtl ≤ c.now - c'.stored := by
  intro c' hc' hzone
  have hsub := misses_sublist (s := s) [] pre
  -- the last one of the zone is too old, and the others are older
  obtain ⟨last, hmem, hlast, -⟩ := exists_last_of_mem s.zoneOf hc'
  have hage : s.cacheTtl ≤ c.now - last.stored := by
    by_contra hyoung
    apply hhit
    refine ⟨(last.stored, s.answerOf last), ?_, not_le.mp hyoung⟩
    rw [get?_after, ← hzone, hlast]
    rfl
  have hstored : c'.stored ≤ last.stored := by
    rcases rel_last_of_pairwise s.zoneOf (h.2.sublist hsub) hc' hlast with rfl | hle
    · exact le_rfl
    · exact hle.trans (h.1 last (hsub.subset hmem))
  linarith

/-- Two misses of one zone are `cache_ttl` apart. -/
theorem misses_pairwise {calls : List CarbonCall} (h : Timely calls) :
    (s.misses [] calls).Pairwise fun c c' =>
      s.zoneOf c = s.zoneOf c' → s.cacheTtl ≤ c'.now - c.stored := by
  induction calls using List.reverseRecOn with
  | nil => exact List.Pairwise.nil
  | append_singleton calls c ih =>
    have hbefore : Timely calls :=
      ⟨fun c' hc' => h.1 c' (List.mem_append_left _ hc'), (List.pairwise_append.mp h.2).1⟩
    rw [misses_append]
    by_cases hhit : s.Hits (s.after calls) c
    · rw [← after, if_pos hhit, List.append_nil]
      exact ih hbefore
    · rw [← after, if_neg hhit, List.pairwise_append]
      refine ⟨ih hbefore, List.pairwise_singleton .., ?_⟩
      intro c' hc' c'' hc''
      rw [List.mem_singleton.mp hc'']
      exact age_of_not_hits hbefore hhit c' hc'

/-- While the clock does not go back, every call works with what the last lookup of its zone that
went to the service brought, made now or stored less than `cacheTtl` before, and the service is
asked about a zone at most once in that time. -/
theorem cache_fresh (ops : List Op) (h : Timely (ops.filterMap s.lookup)) :
    (∀ pre op c, pre ++ [op] <+: ops → s.lookup op = some c →
      ∃ c', last s.zoneOf (s.misses [] (pre.filterMap s.lookup ++ [c])) (s.zoneOf c) = some c' ∧
        (s.perform (Machine.run (Machine.next s.perform) [] pre) op).1 =
          s.result op (s.answerOf c') ∧
        (c' = c ∨ c.now - c'.stored < s.cacheTtl)) ∧
      (s.misses [] (ops.filterMap s.lookup)).Pairwise fun c c' =>
        s.zoneOf c = s.zoneOf c' → s.cacheTtl ≤ c'.now - c.stored := by
  refine ⟨fun pre op c _ hop => ?_, misses_pairwise h⟩
  rw [run_perform, perform_of_lookup hop]
  obtain ⟨c', hlast, hanswer, hage⟩ := getIntensity_after (s := s) (pre.filterMap s.lookup) c
  exact ⟨c', hlast, congrArg (s.result op) hanswer, hage⟩

/-- A scheduler that asks the service. -/
def keyed : CarbonAwareScheduler := { enabled := true, apiKey := some "key" }

/-- The service answers for a zone. -/
def answeredCall : CarbonCall := ⟨some "FR", 0, 1, 2, .ok ⟨some 60, none, none⟩⟩

/-- The service would fail two minutes later. -/
def failedCall : CarbonCall := ⟨some "FR", 120, 121, 122, .error (.other "URLError" "timed out")⟩

/-- The score of an expert and then an estimate for its zone. -/
theorem cache_fresh_two :
    (∀ pre op c, pre ++ [op] <+: [Op.scoreExpert answeredCall (1 / 2), .estimateCo2 failedCall 3] →
      keyed.lookup op = some c →
      ∃ c', last keyed.zoneOf (keyed.misses [] (pre.filterMap keyed.lookup ++ [c]))
            (keyed.zoneOf c) = some c' ∧
        (keyed.perform (Machine.run (Machine.next keyed.perform) [] pre) op).1 =
          keyed.result op (keyed.answerOf c') ∧
        (c' = c ∨ c.now - c'.stored < keyed.cacheTtl)) ∧
      (keyed.misses [] [answeredCall, failedCall]).Pairwise fun c c' =>
        keyed.zoneOf c = keyed.zoneOf c' → keyed.cacheTtl ≤ c'.now - c.stored :=
  cache_fresh [.scoreExpert answeredCall (1 / 2), .estimateCo2 failedCall 3]
    ⟨by decide, by decide⟩

end CarbonAwareScheduler

end Chen
