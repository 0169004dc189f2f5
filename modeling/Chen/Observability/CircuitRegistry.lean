import Chen.Observability.CircuitBreaker
import Chen.Python.Dict

/-!
# The registry of circuit breakers

The server keeps one breaker for each name and asks all of them at once for its health report. Every
breaker goes through the run that its own calls, the reports and the resets make: what is said of a
single breaker holds of each breaker of the registry.
-/

namespace Chen

open CircuitBreaker

/-- `_breakers`: under each name the breaker as it was configured, and what its lock protects. -/
abbrev CircuitBreakerRegistry : Type := Dict String (CircuitBreaker × Inner)

namespace CircuitBreakerRegistry

/-- `get_or_create`. A breaker that is there keeps its own settings. -/
def getOrCreate (r : CircuitBreakerRegistry) (name : String) (threshold : ℤ := 5)
    (cooldownSeconds : ℚ := 30) : CircuitBreaker × CircuitBreakerRegistry :=
  match r.get? name with
  | some (cb, _) => (cb, r)
  | none =>
    let cb : CircuitBreaker := { name, threshold, cooldownSeconds }
    (cb, r.set name (cb, {}))

/-- `get`. -/
def get (r : CircuitBreakerRegistry) (name : String) : Option CircuitBreaker :=
  (r.get? name).map Prod.fst

/-- `list_all`. The `i`-th breaker reads the clock at `(clock i).1` and again at `(clock i).2`. -/
def listAll (clock : ℕ → ℚ × ℚ) (r : CircuitBreakerRegistry) :
    List Snapshot × CircuitBreakerRegistry :=
  (r.mapIdx fun i p => (p.2.1.toDict (clock i).1 (clock i).2 p.2.2).1,
    r.mapIdx fun i p => (p.1, p.2.1, (p.2.1.toDict (clock i).1 (clock i).2 p.2.2).2))

/-- `reset_all`. -/
def resetAll (r : CircuitBreakerRegistry) : CircuitBreakerRegistry :=
  r.map fun p => (p.1, p.2.1, CircuitBreaker.reset p.2.2)

/-! ## Calls -/

/-- What is called: a method of the registry, or a method of the breaker under a name. -/
inductive RegistryCall (κ : Type) where
  | getOrCreate (name : String) (threshold : ℤ) (cooldownSeconds : ℚ)
  | get (name : String)
  | listAll (client : κ) (clock : ℕ → ℚ × ℚ)
  | resetAll (client : κ) (now : ℚ)
  | breaker (name : String) (c : Call κ)

/-- What comes back. -/
inductive RegistryReply where
  | breaker (cb : Option CircuitBreaker)
  | snapshots (ds : List Snapshot)
  | done
  | reply (r : Reply)
  /-- Nobody holds a breaker that was not handed out. -/
  | unknown

variable {κ : Type}

/-- The registry under a call. -/
def act (r : CircuitBreakerRegistry) : RegistryCall κ → RegistryReply × CircuitBreakerRegistry
  | .getOrCreate name threshold cooldownSeconds =>
    let (cb, r) := r.getOrCreate name threshold cooldownSeconds
    (.breaker cb, r)
  | .get name => (.breaker (r.get name), r)
  | .listAll _ clock =>
    let (ds, r) := r.listAll clock
    (.snapshots ds, r)
  | .resetAll _ _ => (.done, r.resetAll)
  | .breaker name c =>
    match r.get? name with
    | some (cb, s) => (.reply (cb.act s c).1, r.set name (cb, (cb.act s c).2))
    | none => (.unknown, r)

/-- A new registry after a series of calls. -/
def after (calls : List (RegistryCall κ)) : CircuitBreakerRegistry :=
  Machine.run (Machine.next act) [] calls

/-- What a call is to the `i`-th breaker, whose name is `name`. -/
def RegistryCall.seen (name : String) (i : ℕ) : RegistryCall κ → List (Call κ)
  | .breaker name' c => if name' = name then [c] else []
  | .listAll client clock => [⟨client, .toDict, (clock i).1, (clock i).2⟩]
  | .resetAll client now => [⟨client, .reset, now, now⟩]
  | .getOrCreate .. | .get _ => []

/-- What a reply is to it. -/
def RegistryReply.shown (i : ℕ) : RegistryReply → List Reply
  | .reply r => [r]
  | .snapshots ds => (ds[i]?.map Reply.dict).toList
  | .done => [.returned]
  | .breaker _ | .unknown => []

/-- The call may create a breaker under the name. -/
def RegistryCall.Creates (name : String) : RegistryCall κ → Prop
  | .getOrCreate name' _ _ => name' = name
  | _ => False

/-! ## Every breaker has a run of its own -/

/-- The `i`-th breaker, with its name; no other has it. -/
structure Holds (r : CircuitBreakerRegistry) (i : ℕ) (name : String) (cb : CircuitBreaker)
    (s : Inner) : Prop where
  distinct : (r.map Prod.fst).Nodup
  place : r[i]? = some (name, cb, s)

/-- A breaker that is held is found under its name. -/
theorem Holds.get? {r : CircuitBreakerRegistry} {i : ℕ} {name : String} {cb : CircuitBreaker}
    {s : Inner} (h : r.Holds i name cb s) : Dict.get? r name = some (cb, s) :=
  Dict.get?_eq_some_of_mem h.distinct (List.mem_of_getElem? h.place)

/-- Listing does not change the names. -/
theorem map_fst_listAll (clock : ℕ → ℚ × ℚ) (r : CircuitBreakerRegistry) :
    (r.listAll clock).2.map Prod.fst = r.map Prod.fst := by
  apply List.ext_getElem?
  intro i
  simp [listAll, Function.comp_def]

/-- Keys stay distinct under every call. -/
theorem distinct_act {r : CircuitBreakerRegistry} (h : (r.map Prod.fst).Nodup)
    (call : RegistryCall κ) : ((act r call).2.map Prod.fst).Nodup := by
  cases call with
  | getOrCreate name threshold cooldownSeconds =>
    rw [act, getOrCreate]
    cases r.get? name with
    | some p => exact h
    | none => exact Dict.nodup_set h name _
  | get name => exact h
  | listAll client clock =>
    show ((r.listAll clock).2.map Prod.fst).Nodup
    rw [map_fst_listAll]
    exact h
  | resetAll client now =>
    rw [act, resetAll, List.map_map]
    exact h
  | breaker name c =>
    rw [act]
    cases r.get? name with
    | some p => exact Dict.nodup_set h name _
    | none => exact h

/-- Names are distinct after every series of calls. -/
theorem distinct_after (calls : List (RegistryCall κ)) : ((after calls).map Prod.fst).Nodup :=
  Machine.run_invariant (I := fun r : CircuitBreakerRegistry => (r.map Prod.fst).Nodup)
    (fun _ call _ h => distinct_act h call) List.nodup_nil

/-- Another breaker's call leaves this one in its place. -/
theorem Holds.set_other {r : CircuitBreakerRegistry} {i : ℕ} {name name' : String}
    {cb : CircuitBreaker} {s : Inner} (h : r.Holds i name cb s) (hne : name' ≠ name)
    {p : CircuitBreaker × Inner} (hp : Dict.get? r name' = some p) (p' : CircuitBreaker × Inner) :
    (Dict.set r name' p')[i]? = some (name, cb, s) := by
  obtain ⟨j, hj⟩ := List.mem_iff_getElem?.mp (Dict.mem_of_get?_eq_some hp)
  have hij : j ≠ i := by
    rintro rfl
    rw [h.place] at hj
    cases hj
    exact hne rfl
  rw [Dict.set_eq_listSet h.distinct hj, List.getElem?_set_ne hij]
  exact h.place

/-- Under a call, the `i`-th breaker does what it does alone under what it sees of the call. -/
theorem Holds.act {r : CircuitBreakerRegistry} {i : ℕ} {name : String} {cb : CircuitBreaker}
    {s : Inner} (h : r.Holds i name cb s) (call : RegistryCall κ) :
    (r.act call).2.Holds i name cb (Machine.run cb.step s (call.seen name i)) ∧
      (call.seen name i).zip ((r.act call).1.shown i) =
        Machine.answers cb.act s (call.seen name i) := by
  refine ⟨⟨distinct_act h.distinct call, ?place⟩, ?answers⟩
  case place =>
    cases call with
    | getOrCreate name' threshold cooldownSeconds =>
      rw [CircuitBreakerRegistry.act, getOrCreate]
      cases hget : r.get? name' with
      | some p => exact h.place
      | none =>
        show (Dict.set r name' _)[i]? = _
        rw [Dict.set_of_get?_eq_none hget]
        obtain ⟨hi, -⟩ := List.getElem?_eq_some_iff.mp h.place
        rw [List.getElem?_append_left hi]
        exact h.place
    | get name' => exact h.place
    | listAll client clock =>
      show (r.listAll clock).2[i]? = _
      rw [listAll, List.getElem?_mapIdx, h.place]
      rfl
    | resetAll client now =>
      show r.resetAll[i]? = _
      rw [resetAll, List.getElem?_map, h.place]
      rfl
    | breaker name' c =>
      rw [CircuitBreakerRegistry.act, RegistryCall.seen]
      by_cases hname : name' = name
      · obtain ⟨hi, -⟩ := List.getElem?_eq_some_iff.mp h.place
        rw [hname, if_pos rfl, h.get?]
        show (Dict.set r name _)[i]? = _
        rw [Dict.set_eq_listSet h.distinct h.place, List.getElem?_set_self hi]
        rfl
      · rw [if_neg hname]
        cases hget : Dict.get? r name' with
        | some p => exact h.set_other hname hget _
        | none => exact h.place
  case answers =>
    cases call with
    | getOrCreate | get => rfl
    | listAll client clock =>
      show [_].zip (((r.listAll clock).1[i]?.map Reply.dict).toList) = _
      rw [listAll, List.getElem?_mapIdx, h.place]
      rfl
    | resetAll client now => rfl
    | breaker name' c =>
      rw [CircuitBreakerRegistry.act, RegistryCall.seen]
      by_cases hname : name' = name
      · rw [hname, if_pos rfl, h.get?]
        rfl
      · rw [if_neg hname, List.zip_nil_left]
        rfl

/-- What the calls of a run are to the `i`-th breaker. -/
def seenAll (name : String) (i : ℕ) (calls : List (RegistryCall κ)) : List (Call κ) :=
  calls.flatMap (·.seen name i)

/-- What the answers of a run are to it. -/
def shownAll (name : String) (i : ℕ) (answers : List (RegistryCall κ × RegistryReply)) :
    List (Call κ × Reply) :=
  answers.flatMap fun p => (p.1.seen name i).zip (p.2.shown i)

/-- A breaker that is held goes through its own calls. -/
theorem Holds.run {r : CircuitBreakerRegistry} {i : ℕ} {name : String} {cb : CircuitBreaker}
    {s : Inner} (h : r.Holds i name cb s) (calls : List (RegistryCall κ)) :
    (Machine.run (Machine.next CircuitBreakerRegistry.act) r calls).Holds i name cb
        (Machine.run cb.step s (seenAll name i calls)) ∧
      shownAll name i (Machine.answers CircuitBreakerRegistry.act r calls) =
        Machine.answers cb.act s (seenAll name i calls) := by
  induction calls generalizing r s with
  | nil => exact ⟨h, rfl⟩
  | cons call calls ih =>
    obtain ⟨hnext, hanswer⟩ := h.act call
    obtain ⟨hholds, hanswers⟩ := ih hnext
    rw [seenAll, List.flatMap_cons, Machine.run_append, Machine.answers_append, ← hanswer]
    refine ⟨hholds, ?_⟩
    rw [Machine.answers, shownAll, List.flatMap_cons]
    exact congrArg _ hanswers

/-! ## Which breakers there are -/

/-- Only `get_or_create` puts a breaker under a name. -/
theorem get?_act_of_not_creates {r : CircuitBreakerRegistry} {name : String}
    (h : Dict.get? r name = none) {call : RegistryCall κ} (hcall : ¬call.Creates name) :
    Dict.get? (r.act call).2 name = none := by
  cases call with
  | getOrCreate name' threshold cooldownSeconds =>
    rw [act, getOrCreate]
    cases r.get? name' with
    | some p => exact h
    | none => exact (Dict.get?_set_of_ne r (Ne.symm hcall) _).trans h
  | get name' => exact h
  | listAll client clock =>
    -- `to_dict` may move breakers, but keeps their names
    have hkeys : name ∉ (r.listAll clock).2.map Prod.fst := by
      rw [map_fst_listAll]
      intro hmem
      obtain ⟨p, hp, heq⟩ := List.mem_map.mp hmem
      exact Dict.get?_eq_none_iff.mp h p hp heq
    exact Dict.get?_eq_none_iff.mpr fun p hp heq => hkeys (heq ▸ List.mem_map_of_mem hp)
  | resetAll client now =>
    have hmap := Dict.get?_map_values r (fun p => (p.1, CircuitBreaker.reset p.2)) name
    rw [h] at hmap
    exact hmap
  | breaker name' c =>
    rw [act]
    by_cases hname : name' = name
    · rw [hname, h]
      exact h
    · cases r.get? name' with
      | some p => exact (Dict.get?_set_of_ne r (Ne.symm hname) _).trans h
      | none => exact h

/-- A name that nobody created is not found. -/
theorem get?_after_eq_none {name : String} {calls : List (RegistryCall κ)}
    (h : ∀ call ∈ calls, ¬call.Creates name) : Dict.get? (after calls) name = none :=
  Machine.run_invariant (I := fun r : CircuitBreakerRegistry => Dict.get? r name = none)
    (fun _ call hcall hget => get?_act_of_not_creates hget (h call hcall)) rfl

/-- The first `get_or_create` of a name puts a new breaker at the end. -/
theorem holds_created {name : String} {pre : List (RegistryCall κ)}
    (h : ∀ call ∈ pre, ¬call.Creates name) (threshold : ℤ) (cooldownSeconds : ℚ) :
    (after (pre ++ [.getOrCreate name threshold cooldownSeconds])).Holds (after pre).length name
      { name, threshold, cooldownSeconds } {} := by
  refine ⟨distinct_after _, ?_⟩
  have hnone := get?_after_eq_none h
  rw [after, Machine.run_append, Machine.run_cons, Machine.run_nil]
  show ((after pre).act (.getOrCreate name threshold cooldownSeconds)).2[_]? = _
  rw [act, getOrCreate, hnone]
  show (Dict.set (after pre) name _)[_]? = _
  rw [Dict.set_of_get?_eq_none hnone, List.getElem?_concat_length]

/-- A name is created by `get_or_create`. -/
theorem RegistryCall.exists_of_creates {name : String} {call : RegistryCall κ}
    (h : call.Creates name) : ∃ threshold cooldownSeconds,
      call = .getOrCreate name threshold cooldownSeconds := by
  cases call with
  | getOrCreate name' threshold cooldownSeconds =>
    cases h
    exact ⟨threshold, cooldownSeconds, rfl⟩
  | get | listAll | resetAll | breaker => exact h.elim

/-- A name is free as long as nobody creates it, or somebody was the first to do so. -/
theorem first_creation (name : String) (calls : List (RegistryCall κ)) :
    (∀ call ∈ calls, ¬call.Creates name) ∨ ∃ pre threshold cooldownSeconds post,
      calls = pre ++ .getOrCreate name threshold cooldownSeconds :: post ∧
        ∀ call ∈ pre, ¬call.Creates name := by
  induction calls with
  | nil => exact .inl (List.forall_mem_nil _)
  | cons call calls ih =>
    by_cases hcall : call.Creates name
    · obtain ⟨threshold, cooldownSeconds, rfl⟩ := RegistryCall.exists_of_creates hcall
      exact .inr ⟨[], threshold, cooldownSeconds, calls, rfl, List.forall_mem_nil _⟩
    · rcases ih with hnone | ⟨pre, threshold, cooldownSeconds, post, rfl, hpre⟩
      · exact .inl (List.forall_mem_cons.mpr ⟨hcall, hnone⟩)
      · exact .inr ⟨call :: pre, threshold, cooldownSeconds, post, rfl,
          List.forall_mem_cons.mpr ⟨hcall, hpre⟩⟩

/-- From its creation on, a breaker goes through its own calls. -/
theorem own_run_of_created {name : String} {pre : List (RegistryCall κ)}
    (hpre : ∀ call ∈ pre, ¬call.Creates name) (threshold : ℤ) (cooldownSeconds : ℚ)
    (post : List (RegistryCall κ)) :
    let cb : CircuitBreaker := { name, threshold, cooldownSeconds }
    let create : RegistryCall κ := .getOrCreate name threshold cooldownSeconds
    let seen := seenAll name (after pre).length post
    Dict.get? (after (pre ++ create :: post)) name = some (cb, cb.after seen) ∧
      shownAll name (after pre).length (Machine.answers act (after (pre ++ [create])) post) =
        Machine.answers cb.act {} seen := by
  obtain ⟨hholds, hanswers⟩ := (holds_created hpre threshold cooldownSeconds).run post
  refine ⟨?_, hanswers⟩
  rw [← List.singleton_append, ← List.append_assoc, after, Machine.run_append]
  exact hholds.get?

/-- For every series of calls: the first `get_or_create` of a name decides what breaker is under it,
from there on the breaker is where its own calls, the reports and the resets take it alone, and what
the registry answers is what it would answer alone. -/
theorem own_run (calls : List (RegistryCall κ)) (name : String) :
    (Dict.get? (after calls) name = none ↔ ∀ call ∈ calls, ¬call.Creates name) ∧
    ∀ pre threshold cooldownSeconds post,
      calls = pre ++ .getOrCreate name threshold cooldownSeconds :: post →
      (∀ call ∈ pre, ¬call.Creates name) →
      let cb : CircuitBreaker := { name, threshold, cooldownSeconds }
      let seen := seenAll name (after pre).length post
      Dict.get? (after calls) name = some (cb, cb.after seen) ∧
        shownAll name (after pre).length (Machine.answers act
          (after (pre ++ [.getOrCreate name threshold cooldownSeconds])) post) =
            Machine.answers cb.act {} seen := by
  refine ⟨⟨fun hnone => ?_, get?_after_eq_none⟩, ?_⟩
  · rcases first_creation name calls with hfree | ⟨pre, threshold, cooldownSeconds, post, rfl, hpre⟩
    · exact hfree
    · have hsome := (own_run_of_created hpre threshold cooldownSeconds post).1
      rw [hnone] at hsome
      cases hsome
  · rintro pre threshold cooldownSeconds post rfl hpre
    exact own_run_of_created hpre threshold cooldownSeconds post

end CircuitBreakerRegistry

end Chen
