import Chen.Library.LastWrite
import Chen.Library.Machine
import Chen.Python.Dict
import Chen.Python.Exception
import Chen.Python.Text
import Mathlib.Data.List.Sort
import Mathlib.Data.String.Basic

/-!
# The backend registry

Backends are registered under names in lower case. A name that is taken stays with the factory that
took it. Factories are compared by identity, and shown by `repr`.
-/

namespace Chen

open LastWrite

/-- `BACKEND_REGISTRY`, for factories of type `φ`. -/
abbrev BackendRegistry (φ : Type) : Type := Dict String φ

namespace BackendRegistry

variable {φ : Type} [DecidableEq φ] [Unicode] (repr : φ → String)

/-- `register_backend`. -/
def registerBackend (registry : BackendRegistry φ) (name : String) (factory : φ) :
    Except Exn Unit × BackendRegistry φ :=
  let key := Unicode.lower name
  match registry.get? key with
  | some taken =>
    if taken ≠ factory then
      (.error (.other "BackendError" ("Backend '" ++ key ++ "' is already registered to " ++
        repr taken ++ ". Use a different name.")), registry)
    else (.ok (), registry.set key factory)
  | none => (.ok (), registry.set key factory)

/-- `sorted(BACKEND_REGISTRY)`. -/
def listBackends (registry : BackendRegistry φ) : List String :=
  (registry.map Prod.fst).insertionSort (· ≤ ·)

/-- `get_backend`, up to the call of the factory. -/
def getBackend (registry : BackendRegistry φ) (name : String) : Except Exn φ :=
  match registry.get? (Unicode.lower name) with
  | some factory => .ok factory
  | none => .error (.other "BackendError" ("Unknown backend '" ++ name ++
      "'. Registered backends: " ++ String.intercalate ", " registry.listBackends ++ "."))

/-- A registration, as an input of the registry. -/
def act (registry : BackendRegistry φ) (call : String × φ) :
    Except Exn Unit × BackendRegistry φ :=
  registerBackend repr registry call.1 call.2

/-- The registry after a series of registrations, whether or not they raised. -/
def after (calls : List (String × φ)) : BackendRegistry φ :=
  Machine.run (Machine.next (act repr)) [] calls

/-- The key of a registration. -/
def key (call : String × φ) : String := Unicode.lower call.1

variable {repr} {registry : BackendRegistry φ}

/-- A registration takes its name if the name is free, and changes nothing otherwise. -/
theorem get?_act (call : String × φ) (k : String) :
    ((registry.act repr call).2).get? k =
      (registry.get? k).or (if key call = k then some call.2 else none) := by
  obtain ⟨name, factory⟩ := call
  show Dict.get? (registerBackend repr registry name factory).2 k =
    (registry.get? k).or (if Unicode.lower name = k then some factory else none)
  -- A name is set if it is free, or was the factory's own before.
  have hset (h : ∀ taken, registry.get? (Unicode.lower name) = some taken → taken = factory) :
      Dict.get? (registry.set (Unicode.lower name) factory) k =
        (registry.get? k).or (if Unicode.lower name = k then some factory else none) := by
    -- the name that is set
    by_cases hk : Unicode.lower name = k
    · subst hk
      rw [Dict.get?_set_self, if_pos rfl]
      cases hget : registry.get? (Unicode.lower name) with
      | none => rfl
      | some taken => rw [h taken hget, Option.some_or]
    · rw [Dict.get?_set_of_ne _ (Ne.symm hk), if_neg hk, Option.or_none]
  rw [registerBackend]
  cases hget : registry.get? (Unicode.lower name) with
  | none => exact hset fun taken htaken => by rw [hget] at htaken; cases htaken
  | some taken =>
    dsimp only
    split
    case isTrue hne =>
      by_cases hk : Unicode.lower name = k
      · rw [← hk, hget, Option.some_or]
      · rw [if_neg hk, Option.or_none]
    case isFalse heq =>
      refine hset fun taken' htaken' => ?_
      rw [hget] at htaken'
      cases htaken'
      exact not_not.mp heq

variable (repr) in
/-- A name belongs to the first that registered it. -/
theorem get?_after (calls : List (String × φ)) (k : String) :
    (after repr calls).get? k = (first key calls k).map Prod.snd := by
  induction calls using List.reverseRecOn with
  | nil => rfl
  | append_singleton calls call ih =>
    rw [after, Machine.run_append, Machine.run_cons, Machine.run_nil]
    show Dict.get? ((after repr calls).act repr call).2 k = _
    have hfirst : first key (calls ++ [call]) k =
        (first key calls k).or (if key call = k then some call else none) := by
      rw [first, List.find?_append, List.find?_singleton, first]
      simp
    rw [get?_act, ih, hfirst]
    cases first key calls k with
    | some call' => rfl
    | none => split <;> rfl

/-- Names are distinct after every series of calls. -/
theorem distinct_after (calls : List (String × φ)) : ((after repr calls).map Prod.fst).Nodup := by
  refine Machine.run_invariant (I := fun registry : BackendRegistry φ =>
    (registry.map Prod.fst).Nodup) (fun registry call _ h => ?_) List.nodup_nil
  show ((registerBackend repr registry call.1 call.2).2.map Prod.fst).Nodup
  rw [registerBackend]
  cases registry.get? (Unicode.lower call.1) with
  | none => exact Dict.nodup_set h _ _
  | some taken =>
    dsimp only
    split
    · exact h
    · exact Dict.nodup_set h _ _

/-- For every series of registrations: the first one of a name keeps it, whoever asks for it in
whatever case, a registration raises if and only if its name belongs to another factory by then, and
the names are listed in order and once. -/
theorem first_registration (calls : List (String × φ)) :
    (∀ name factory, (after repr calls).getBackend name = .ok factory ↔
      (first key calls (Unicode.lower name)).map Prod.snd = some factory) ∧
    (∀ name factory, (∃ x, (registerBackend repr (after repr calls) name factory).1 = .error x) ↔
      ∃ call, first key calls (Unicode.lower name) = some call ∧ call.2 ≠ factory) ∧
    (after repr calls).listBackends.Pairwise (· < ·) ∧
    ∀ k, k ∈ (after repr calls).listBackends ↔ ∃ call ∈ calls, key call = k := by
  refine ⟨fun name factory => ?_, fun name factory => ?_, ?_, fun k => ?_⟩
  · rw [← get?_after repr, getBackend]
    cases (after repr calls).get? (Unicode.lower name) <;> simp
  · rw [registerBackend, get?_after]
    cases first key calls (Unicode.lower name) with
    | none => simp
    | some call =>
      dsimp only [Option.map_some]
      by_cases hne : call.2 = factory <;> simp [hne]
  · have hsorted := List.pairwise_insertionSort (· ≤ ·) ((after repr calls).map Prod.fst)
    have hnodup := (List.perm_insertionSort (· ≤ ·) ((after repr calls).map Prod.fst)).nodup_iff.mpr
      (distinct_after calls)
    exact (hsorted.and hnodup).imp fun h => lt_of_le_of_ne h.1 h.2
  · rw [listBackends, (List.perm_insertionSort _ _).mem_iff]
    have hget : k ∈ (after repr calls).map Prod.fst ↔ Dict.get? (after repr calls) k ≠ none := by
      rw [Ne, Dict.get?_eq_none_iff, List.mem_map]
      push Not
      rfl
    rw [hget, get?_after, Ne, Option.map_eq_none_iff, first_eq_none_iff]
    push Not
    rfl

end BackendRegistry

end Chen
