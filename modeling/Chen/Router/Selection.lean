import Chen.Core.Expert
import Mathlib.Data.List.Nodup

/-!
# Selections

What the routers do to a selection of expert names once it has been made: the fallback, the forced
role at the end, and the cap. The logistic and the cosine router share these lines.
-/

namespace Chen

variable {σ : Type}

/-- `{e.name for e in available_experts if e.role == force_last_role}`. -/
def lastRoleNames (pool : List (Expert σ)) (role : ExpertRole) : List String :=
  (pool.filter (·.role = role)).map (·.name)

/-- Absolute fallback for an empty selection: the first expert of the forced role, else the first
expert. -/
def absoluteFallback (pool : List (Expert σ)) (role : ExpertRole) (selected : List String) :
    List String :=
  if selected.isEmpty then
    match pool.find? (·.role = role) with
    | some e => [e.name]
    | none => (pool.head?.map (·.name)).toList
  else selected

/-- When the forced role is `missing`, append its first expert that is not selected yet. -/
def appendLastRole (pool : List (Expert σ)) (role : ExpertRole) (missing : Bool)
    (selected : List String) : List String :=
  if missing then
    match pool.find? fun e => e.role = role && !selected.contains e.name with
    | some e => selected ++ [e.name]
    | none => selected
  else selected

/-- Move the last selected expert of the forced role to the end. -/
def moveLastRole (pool : List (Expert σ)) (role : ExpertRole) (selected : List String) :
    List String :=
  match (selected.filter (lastRoleNames pool role).contains).getLast? with
  | some last => selected.filter (· ≠ last) ++ [last]
  | none => selected

/-- `selected[:max_activation]`, when the maximum is positive. -/
def capActivation (maxActivation : ℤ) (selected : List String) : List String :=
  if 0 < maxActivation then sliceTo selected maxActivation else selected

/-- The last of `names` is the name of an expert of the role. -/
def EndsWithRole (pool : List (Expert σ)) (role : ExpertRole) (names : List String) : Prop :=
  ∃ n ∈ names.getLast?, n ∈ lastRoleNames pool role

variable {pool : List (Expert σ)} {role : ExpertRole} {selected : List String}

/-- The names of the forced role are those of its experts. -/
theorem mem_lastRoleNames {n : String} :
    n ∈ lastRoleNames pool role ↔ ∃ e ∈ pool, e.role = role ∧ e.name = n := by
  simp [lastRoleNames, and_assoc]

/-- With distinct names, an expert's name is one of the role's exactly when it has the role. -/
theorem name_mem_lastRoleNames (hnd : (pool.map (·.name)).Nodup) {e : Expert σ} (he : e ∈ pool) :
    e.name ∈ lastRoleNames pool role ↔ e.role = role := by
  rw [mem_lastRoleNames]
  constructor
  · rintro ⟨e', he', hrole, hname⟩
    exact List.inj_on_of_nodup_map hnd he' he hname ▸ hrole
  · exact fun hrole => ⟨e, he, hrole, rfl⟩

/-! ## Distinct names of the pool -/

/-- The names are distinct names of the pool. -/
structure Chosen (pool : List (Expert σ)) (names : List String) : Prop where
  nodup : names.Nodup
  mem : ∀ n ∈ names, n ∈ pool.map (·.name)

namespace Chosen

/-- Choosing nobody. -/
protected theorem nil : Chosen pool [] := ⟨List.nodup_nil, by simp⟩

/-- Choosing one expert. -/
theorem singleton {e : Expert σ} (he : e ∈ pool) : Chosen pool [e.name] :=
  ⟨List.nodup_singleton _, fun _ hn => List.mem_singleton.mp hn ▸ List.mem_map_of_mem he⟩

/-- Choosing fewer. -/
theorem sublist (h : Chosen pool selected) {names : List String} (hsub : names.Sublist selected) :
    Chosen pool names :=
  ⟨h.nodup.sublist hsub, fun n hn => h.mem n (hsub.subset hn)⟩

/-- Choosing in another order. -/
theorem perm (h : Chosen pool selected) {names : List String} (hperm : names.Perm selected) :
    Chosen pool names :=
  ⟨hperm.nodup_iff.mpr h.nodup, fun n hn => h.mem n (hperm.mem_iff.mp hn)⟩

/-- A name of the pool that is not chosen yet may be added. -/
theorem append_singleton (h : Chosen pool selected) {n : String} (hn : n ∈ pool.map (·.name))
    (hnew : n ∉ selected) : Chosen pool (selected ++ [n]) := by
  constructor
  · exact List.nodup_append.mpr ⟨h.nodup, List.nodup_singleton n, by
      rintro a ha b hb rfl
      exact hnew (List.mem_singleton.mp hb ▸ ha)⟩
  · intro n' hn'
    rcases List.mem_append.mp hn' with hn' | hn'
    · exact h.mem n' hn'
    · exact List.mem_singleton.mp hn' ▸ hn

end Chosen

/-- An expert that was found is in the pool. -/
theorem name_mem_of_find? {p : Expert σ → Bool} {e : Expert σ} (h : pool.find? p = some e) :
    e.name ∈ pool.map (·.name) :=
  List.mem_map_of_mem (List.mem_of_find?_eq_some h)

/-! ## Leaving a name out -/

/-- Taking out a name that is not there changes nothing. -/
theorem filter_ne_of_notMem {names : List String} {n : String} (h : n ∉ names) :
    names.filter (· ≠ n) = names := by
  rw [List.filter_eq_self]
  intro n' hn'
  have hne : n' ≠ n := fun heq => h (heq ▸ hn')
  simpa using hne

/-- In a list without repetition, a name is taken out once. -/
theorem filter_ne_eq_erase {names : List String} (h : names.Nodup) (n : String) :
    names.filter (· ≠ n) = names.erase n := by
  rw [h.erase_eq_filter]
  exact List.filter_congr fun n' _ => by simp [bne, beq_eq_decide]

/-- One name is left out. -/
theorem length_filter_ne {names : List String} (h : names.Nodup) {n : String} (hn : n ∈ names) :
    (names.filter (· ≠ n)).length + 1 = names.length := by
  rw [filter_ne_eq_erase h, (List.perm_cons_erase hn).length_eq, List.length_cons]

/-! ## What the steps keep -/

/-- The fallback chooses from the pool. -/
theorem Chosen.absoluteFallback (h : Chosen pool selected) (role : ExpertRole) :
    Chosen pool (absoluteFallback pool role selected) := by
  rw [Chen.absoluteFallback]
  split
  case isTrue =>
    split
    case h_1 e he => exact .singleton (List.mem_of_find?_eq_some he)
    case h_2 =>
      cases pool with
      | nil => exact .nil
      | cons e pool => exact .singleton (List.mem_cons_self ..)
  case isFalse => exact h

/-- The fallback chooses somebody from every pool that has an expert. -/
theorem absoluteFallback_ne_nil (hne : pool ≠ []) (role : ExpertRole) (selected : List String) :
    absoluteFallback pool role selected ≠ [] := by
  obtain ⟨e, pool, rfl⟩ := List.exists_cons_of_ne_nil hne
  rw [absoluteFallback]
  split
  case isTrue =>
    split <;> simp
  case isFalse h =>
    simpa using h

/-- A selection needs no fallback. -/
theorem absoluteFallback_of_ne_nil (pool : List (Expert σ)) (role : ExpertRole)
    (h : selected ≠ []) : absoluteFallback pool role selected = selected := by
  rw [absoluteFallback, if_neg (by simpa using h)]

/-- Appending the role chooses from the pool. -/
theorem Chosen.appendLastRole (h : Chosen pool selected) (role : ExpertRole) (missing : Bool) :
    Chosen pool (appendLastRole pool role missing selected) := by
  rw [Chen.appendLastRole]
  split
  case isTrue =>
    split
    case h_1 e he =>
      have hnew := List.find?_some he
      simp only [Bool.and_eq_true, Bool.not_eq_true', List.contains_eq_mem,
        decide_eq_false_iff_not] at hnew
      exact h.append_singleton (name_mem_of_find? he) hnew.2
    case h_2 => exact h
  case isFalse => exact h

/-- Appending keeps what was selected. -/
theorem subset_appendLastRole (pool : List (Expert σ)) (role : ExpertRole) (missing : Bool)
    (selected : List String) : selected ⊆ appendLastRole pool role missing selected := by
  rw [appendLastRole]
  split
  case isTrue =>
    split
    case h_1 => exact List.subset_append_left ..
    case h_2 => exact List.Subset.refl _
  case isFalse => exact List.Subset.refl _

/-- Moving a name rearranges a selection without duplicates. -/
theorem moveLastRole_perm (pool : List (Expert σ)) (role : ExpertRole) (h : selected.Nodup) :
    (moveLastRole pool role selected).Perm selected := by
  rw [moveLastRole]
  split
  case h_1 last hlast =>
    have hmem := List.mem_of_mem_filter (List.mem_of_getLast? hlast)
    rw [filter_ne_eq_erase h]
    exact (List.perm_append_singleton ..).trans (List.perm_cons_erase hmem).symm
  case h_2 => exact .refl _

/-- Moving the role empties no selection. -/
theorem moveLastRole_ne_nil (pool : List (Expert σ)) (role : ExpertRole) (h : selected ≠ []) :
    moveLastRole pool role selected ≠ [] := by
  rw [moveLastRole]
  split
  case h_1 => simp
  case h_2 => exact h

/-- Appending the role empties no selection. -/
theorem appendLastRole_ne_nil (pool : List (Expert σ)) (role : ExpertRole) (missing : Bool)
    (h : selected ≠ []) : appendLastRole pool role missing selected ≠ [] := by
  intro hnil
  have hsub := subset_appendLastRole pool role missing selected
  rw [hnil] at hsub
  exact h (List.subset_nil.mp hsub)

/-- The cap keeps the order. -/
theorem capActivation_sublist (m : ℤ) : (capActivation m selected).Sublist selected := by
  rw [capActivation]
  split
  case isTrue => exact sliceTo_sublist ..
  case isFalse => exact .refl _

/-- The cap is kept. -/
theorem length_capActivation_le {m : ℤ} (hm : 0 < m) :
    ((capActivation m selected).length : ℤ) ≤ m := by
  rw [capActivation, if_pos hm, sliceTo_of_nonneg _ (by omega), List.length_take]
  omega

/-- The cap empties no selection. -/
theorem capActivation_ne_nil {m : ℤ} (h : selected ≠ []) : capActivation m selected ≠ [] := by
  rw [capActivation]
  split
  case isTrue hm =>
    rw [sliceTo_of_nonneg _ (by omega)]
    intro hnil
    rcases List.take_eq_nil_iff.mp hnil with hzero | hnil
    · omega
    · exact h hnil
  case isFalse => exact h

/-! ## The forced role -/

/-- A selection within the cap stays as it is. -/
theorem capActivation_of_length_le {m : ℕ} (h : selected.length ≤ m) :
    capActivation m selected = selected := by
  rw [capActivation, sliceTo_natCast, List.take_of_length_le h, ite_self]

/-- Moving the role last puts one of its names at the end and adds nothing. -/
theorem moveLastRole_of_mem (h : ∃ n ∈ selected, n ∈ lastRoleNames pool role) :
    ∃ front, ∃ last ∈ lastRoleNames pool role,
      moveLastRole pool role selected = front ++ [last] ∧ front.length + 1 ≤ selected.length := by
  obtain ⟨n, hn, hrole⟩ := h
  have hne : selected.filter (lastRoleNames pool role).contains ≠ [] :=
    List.ne_nil_of_mem (List.mem_filter.mpr ⟨hn, by simpa using hrole⟩)
  obtain ⟨last, hlast⟩ : ∃ last, (selected.filter (lastRoleNames pool role).contains).getLast? =
      some last := ⟨_, List.getLast?_eq_some_getLast hne⟩
  obtain ⟨hmem, hrole⟩ := List.mem_filter.mp (List.mem_of_getLast? hlast)
  refine ⟨selected.filter (· ≠ last), last, by simpa using hrole, ?_, ?_⟩
  · rw [moveLastRole, hlast]
  · exact List.length_filter_lt_length_iff_exists.mpr ⟨last, hmem, by simp⟩

/-- Appending an expert of the role that was missing leaves it at the end. -/
theorem moveLastRole_append (h : ∀ n ∈ selected, n ∉ lastRoleNames pool role) {last : String}
    (hlast : last ∈ lastRoleNames pool role) :
    moveLastRole pool role (selected ++ [last]) = selected ++ [last] := by
  have hfilter : (selected ++ [last]).filter (lastRoleNames pool role).contains = [last] := by
    rw [List.filter_append, List.filter_eq_nil_iff.mpr fun n hn => by simpa using h n hn]
    simp [hlast]
  have hkeep : selected.filter (· ≠ last) = selected :=
    filter_ne_of_notMem fun hmem => h last hmem hlast
  rw [moveLastRole, hfilter]
  simpa using hkeep

/-- A cap that the selection already reaches drops what is appended to it. -/
theorem take_moveLastRole_subset (h : selected.Nodup) {missing : Bool}
    (hmissing : missing = true → ∀ n ∈ selected, n ∉ lastRoleNames pool role) :
    (moveLastRole pool role (appendLastRole pool role missing selected)).take selected.length ⊆
      selected := by
  have hkeep : (moveLastRole pool role selected).take selected.length ⊆ selected :=
    fun n hn => (moveLastRole_perm pool role h).mem_iff.mp (List.mem_of_mem_take hn)
  rw [appendLastRole]
  split
  case isFalse => exact hkeep
  case isTrue htrue =>
    split
    case h_1 e he =>
      have hfound := List.find?_some he
      simp only [Bool.and_eq_true, decide_eq_true_eq] at hfound
      have hlast : e.name ∈ lastRoleNames pool role :=
        mem_lastRoleNames.mpr ⟨e, List.mem_of_find?_eq_some he, hfound.1, rfl⟩
      rw [moveLastRole_append (hmissing htrue) hlast, List.take_left' rfl]
      exact List.Subset.refl _
    case h_2 => exact hkeep

/-- A role that is missing is appended if the pool has it. -/
theorem appendLastRole_missing (hex : ∃ e ∈ pool, e.role = role)
    (h : ∀ n ∈ selected, n ∉ lastRoleNames pool role) :
    ∃ last ∈ lastRoleNames pool role, appendLastRole pool role true selected =
      selected ++ [last] := by
  obtain ⟨e, he, hrole⟩ := hex
  have hsome : (pool.find? fun e => e.role = role && !selected.contains e.name).isSome := by
    rw [List.find?_isSome]
    refine ⟨e, he, ?_⟩
    have hn : e.name ∉ selected := fun hn => h _ hn (mem_lastRoleNames.mpr ⟨e, he, hrole, rfl⟩)
    simp [hrole, hn]
  obtain ⟨e', he'⟩ := Option.isSome_iff_exists.mp hsome
  have hrole' := List.find?_some he'
  refine ⟨e'.name, mem_lastRoleNames.mpr ⟨e', List.mem_of_find?_eq_some he', ?_, rfl⟩, ?_⟩
  · simp only [Bool.and_eq_true, decide_eq_true_eq] at hrole'
    exact hrole'.1
  · simp only [appendLastRole, he', if_true]

/-- The end of a route. The forced role is last when it was selected, and otherwise when a place
was left for it. -/
theorem endsWithRole_iff {m : ℕ} (hm : 1 ≤ m) (hlen : selected.length ≤ m)
    (hex : ∃ e ∈ pool, e.role = role) {missing : Bool}
    (hmissing : missing = true ↔ ∀ n ∈ selected, n ∉ lastRoleNames pool role) :
    EndsWithRole pool role (capActivation m
        (moveLastRole pool role (appendLastRole pool role missing selected))) ↔
      (∃ n ∈ selected, n ∈ lastRoleNames pool role) ∨ selected.length < m := by
  cases missing with
  | false =>
    have h : ∃ n ∈ selected, n ∈ lastRoleNames pool role := by simpa using hmissing
    obtain ⟨front, last, hlast, heq, hfront⟩ := moveLastRole_of_mem h
    rw [appendLastRole, if_neg (by simp), heq,
      capActivation_of_length_le (by simp; omega)]
    simp [EndsWithRole, h, hlast]
  | true =>
    have h := hmissing.mp rfl
    obtain ⟨last, hlast, happend⟩ := appendLastRole_missing hex h
    have hnone : ¬ ∃ n ∈ selected, n ∈ lastRoleNames pool role := by simpa using h
    rw [happend, moveLastRole_append h hlast, or_iff_right hnone]
    rcases hlen.lt_or_eq with hlt | heq
    · rw [capActivation_of_length_le (by simp; omega)]
      simp [EndsWithRole, hlast, hlt]
    · -- the cap drops what was appended
      have hcap : capActivation m (selected ++ [last]) = selected := by
        rw [capActivation, if_pos (by omega), sliceTo_natCast, List.take_left' heq]
      rw [hcap]
      refine iff_of_false ?_ (by omega)
      rintro ⟨n, hn, hrole⟩
      exact h n (List.mem_of_getLast? hn) hrole

/-- The absolute fallback selects the forced role, and changes nothing about a selection that is
not empty. -/
theorem absoluteFallback_iff {m : ℕ} (hm : 1 ≤ m) (hlen : selected.length ≤ m)
    (hex : ∃ e ∈ pool, e.role = role) :
    (absoluteFallback pool role selected).length ≤ m ∧
      (((∃ n ∈ absoluteFallback pool role selected, n ∈ lastRoleNames pool role) ∨
          (absoluteFallback pool role selected).length < m) ↔
        (∃ n ∈ selected, n ∈ lastRoleNames pool role) ∨ selected.length < m) := by
  cases selected with
  | cons n ns => exact ⟨hlen, Iff.rfl⟩
  | nil =>
    have hsome : (pool.find? (·.role = role)).isSome := by simpa using hex
    obtain ⟨e, he⟩ := Option.isSome_iff_exists.mp hsome
    have hrole : e.name ∈ lastRoleNames pool role :=
      mem_lastRoleNames.mpr
        ⟨e, List.mem_of_find?_eq_some he, by simpa using List.find?_some he, rfl⟩
    have heq : absoluteFallback pool role [] = [e.name] := by simp [absoluteFallback, he]
    rw [heq]
    exact ⟨hm, iff_of_true (.inl ⟨_, List.mem_singleton_self _, hrole⟩) (.inr hm)⟩

end Chen
