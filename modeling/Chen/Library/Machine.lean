import Mathlib.Data.List.Basic
import Mathlib.Data.List.Forall2
import Mathlib.Data.List.Infix

/-!
# Machines

A machine answers every input by a new state. What holds of whole runs is proved one step at a
time: an invariant, a property that a run keeps as long as no step does harm, two runs that are
compared by what they leave in a log, and a part of the state that is a machine of its own.
-/

namespace Machine

variable {S A E V : Type} {step : S → A → S}

/-- The state after a series of inputs. -/
def run (step : S → A → S) (s : S) (as : List A) : S := as.foldl step s

@[simp] theorem run_nil (s : S) : run step s [] = s := rfl

@[simp] theorem run_cons (s : S) (a : A) (as : List A) :
    run step s (a :: as) = run step (step s a) as := rfl

/-- A run may be cut anywhere. -/
@[simp] theorem run_append (s : S) (as bs : List A) :
    run step s (as ++ bs) = run step (run step s as) bs :=
  List.foldl_append

/-! ## One run -/

/-- What every step of a run keeps, the run keeps. -/
theorem run_invariant {I : S → Prop} {as : List A} (hstep : ∀ s, ∀ a ∈ as, I s → I (step s a))
    {s : S} (hs : I s) : I (run step s as) := by
  induction as generalizing s with
  | nil => exact hs
  | cons a as ih =>
    apply ih
    · exact fun s b hb => hstep s b (List.mem_cons_of_mem _ hb)
    · exact hstep s a (List.mem_cons_self ..) hs

/-- `P` holds of every input of a run and the state it meets. -/
def EachStep (step : S → A → S) (P : S → A → Prop) : S → List A → Prop
  | _, [] => True
  | s, a :: as => P s a ∧ EachStep step P (step s a) as

instance EachStep.decidable {P : S → A → Prop} [∀ s a, Decidable (P s a)] :
    (s : S) → (as : List A) → Decidable (EachStep step P s as)
  | _, [] => isTrue trivial
  | s, a :: as =>
    have := EachStep.decidable (P := P) (step s a) as
    inferInstanceAs (Decidable (P s a ∧ EachStep step P (step s a) as))

/-- A condition on the steps of a run is one on the steps of its two parts. -/
theorem eachStep_append {P : S → A → Prop} {s : S} {as bs : List A} :
    EachStep step P s (as ++ bs) ↔ EachStep step P s as ∧ EachStep step P (run step s as) bs := by
  induction as generalizing s with
  | nil => exact ⟨fun h => ⟨trivial, h⟩, fun h => h.2⟩
  | cons a as ih =>
    rw [List.cons_append, EachStep, EachStep, ih, run_cons, and_assoc]

/-- A condition on each step, in terms of the actions made before it. -/
theorem eachStep_iff {P : S → A → Prop} {s : S} {as : List A} :
    EachStep step P s as ↔ ∀ pre a, pre ++ [a] <+: as → P (run step s pre) a := by
  constructor
  · rintro h pre a ⟨rest, rfl⟩
    exact (eachStep_append.mp (eachStep_append.mp h).1).2.1
  · intro h
    induction as generalizing s with
    | nil => trivial
    | cons a as ih =>
      refine ⟨h [] a (by simp), ih fun pre b hb => ?_⟩
      exact h (a :: pre) b (by simpa using hb)

/-- What holds of every step of a run in view of an invariant that these steps keep. -/
theorem EachStep.imp_of_invariant {I : S → Prop} {P Q : S → A → Prop}
    (hstep : ∀ s a, I s → P s a → I (step s a)) (himp : ∀ s a, I s → P s a → Q s a) {s : S}
    (hs : I s) {as : List A} (h : EachStep step P s as) : EachStep step Q s as := by
  induction as generalizing s with
  | nil => trivial
  | cons a as ih => exact ⟨himp s a hs h.1, ih (hstep s a hs h.1) h.2⟩

/-- A weaker condition on each step. -/
theorem EachStep.imp {P Q : S → A → Prop} (himp : ∀ s a, P s a → Q s a) {s : S} {as : List A}
    (h : EachStep step P s as) : EachStep step Q s as :=
  h.imp_of_invariant (I := fun _ => True) (fun _ _ _ _ => trivial) (fun s a _ => himp s a) trivial

/-- Two properties of steps that agree where an invariant holds, agree on runs. -/
theorem eachStep_congr {I : S → Prop} {P Q : S → A → Prop}
    (hstep : ∀ s a, I s → I (step s a)) (hiff : ∀ s a, I s → (P s a ↔ Q s a)) {s : S} (hs : I s)
    {as : List A} : EachStep step P s as ↔ EachStep step Q s as :=
  ⟨EachStep.imp_of_invariant (fun s a hI _ => hstep s a hI) (fun s a hI => (hiff s a hI).mp) hs,
    EachStep.imp_of_invariant (fun s a hI _ => hstep s a hI) (fun s a hI => (hiff s a hI).mpr) hs⟩

/-- A run of a machine whose states stand for those of another one. -/
theorem eachStep_image {T : Type} {step' : T → A → T} {f : T → S}
    (hf : ∀ t a, step (f t) a = f (step' t a)) {P : S → A → Prop} {t : T} {as : List A} :
    EachStep step P (f t) as ↔ EachStep step' (fun t => P (f t)) t as := by
  induction as generalizing t with
  | nil => exact Iff.rfl
  | cons a as ih => rw [EachStep, EachStep, hf, ih]

/-- From the last reset on, `Q` holds in every state of a run if and only if every step is harmless.
`P` says of a state what makes `Q` hold, and a harmless step keep it. -/
theorem always_since_iff (P Q : S → Prop) (Harmless : S → A → Prop) (Resets : A → Prop)
    (hQ : ∀ s, P s → Q s) (hreset : ∀ s a, Resets a → P (step s a))
    (hkeep : ∀ s a, P s → Harmless s a → P (step s a))
    (hharm : ∀ s a, P s → Q (step s a) → Harmless s a) {s : S} (hs : P s) (as : List A) :
    (∀ pre, pre <+: as → (∀ b ∈ as.drop pre.length, ¬Resets b) → Q (run step s pre)) ↔
      ∀ pre a, pre ++ [a] <+: as → (∀ b ∈ as.drop pre.length, ¬Resets b) →
        Harmless (run step s pre) a := by
  -- behind an input of the run that is no reset, the last reset is the same
  have hdrop : ∀ {pre a}, pre ++ [a] <+: as →
      as.drop pre.length = a :: as.drop (pre ++ [a]).length := by
    rintro pre a ⟨rest, rfl⟩
    simp
  -- along the prefix, from its beginning or from the last reset
  have hreached : (∀ pre a, pre ++ [a] <+: as → (∀ b ∈ as.drop pre.length, ¬Resets b) →
        P (run step s pre) → P (run step s (pre ++ [a]))) →
      ∀ pre, pre <+: as → (∀ b ∈ as.drop pre.length, ¬Resets b) → P (run step s pre) := by
    intro hnext pre
    induction pre using List.reverseRecOn with
    | nil => exact fun _ _ => hs
    | append_singleton pre a ih =>
      intro hpre hlast
      by_cases ha : Resets a
      · rw [run_append]
        exact hreset _ a ha
      · have hlast' : ∀ b ∈ as.drop pre.length, ¬Resets b := by
          rw [hdrop hpre, List.forall_mem_cons]
          exact ⟨ha, hlast⟩
        exact hnext pre a hpre hlast' (ih ((List.prefix_append pre [a]).trans hpre) hlast')
  constructor
  · intro hall pre a ha hlast
    have hstep : ∀ pre a, pre ++ [a] <+: as → (∀ b ∈ as.drop pre.length, ¬Resets b) →
        P (run step s pre) → Harmless (run step s pre) a := by
      intro pre a ha hlast hP
      apply hharm _ a hP
      have hnext := hall (pre ++ [a]) ha fun b hb => hlast b (by
        rw [hdrop ha]
        exact List.mem_cons_of_mem _ hb)
      rwa [run_append] at hnext
    refine hstep pre a ha hlast (hreached (fun pre a ha hlast hP => ?_) pre
      ((List.prefix_append pre [a]).trans ha) hlast)
    rw [run_append]
    exact hkeep _ a hP (hstep pre a ha hlast hP)
  · intro hall pre hpre hlast
    refine hQ _ (hreached (fun pre a ha hlast hP => ?_) pre hpre hlast)
    rw [run_append]
    exact hkeep _ a hP (hall pre a ha hlast)

/-- A property holds in every state of a run if and only if every step is harmless, where the
harmless steps are those that keep the property. -/
theorem always_iff {I P : S → Prop} {Harmless : S → A → Prop} (hinv : ∀ s a, I s → I (step s a))
    (hstep : ∀ s a, I s → P s → (P (step s a) ↔ Harmless s a)) {s : S} (hI : I s) (hP : P s)
    (as : List A) :
    (∀ pre, pre <+: as → P (run step s pre)) ↔
      ∀ pre a, pre ++ [a] <+: as → Harmless (run step s pre) a := by
  have halways := always_since_iff (fun s => I s ∧ P s) P Harmless (fun _ : A => False) (fun s h => h.2)
    (fun s a h => h.elim)
    (fun s a h hharmless => ⟨hinv s a h.1, (hstep s a h.1 h.2).mpr hharmless⟩)
    (fun s a h => (hstep s a h.1 h.2).mp) ⟨hI, hP⟩ as
  simpa using halways

/-- What some inputs bring about and others undo holds behind a run if and only if an input brought
it about and none has undone it since. -/
theorem holds_iff_since {I H : S → Prop} {Sets : S → A → Prop} {Clears : A → Prop}
    (hinv : ∀ s a, I s → I (step s a))
    (hstep : ∀ s a, I s → (H (step s a) ↔ Sets s a ∨ H s ∧ ¬ Clears a)) {s : S} (hI : I s)
    (hs : ¬ H s) (as : List A) :
    H (run step s as) ↔ ∃ before a between, as = before ++ a :: between ∧
      Sets (run step s before) a ∧ ∀ b ∈ between, ¬ Clears b := by
  induction as using List.reverseRecOn with
  | nil => exact iff_of_false hs (by simp)
  | append_singleton as b ih =>
    have hreached : I (run step s as) := run_invariant (fun s a _ => hinv s a) hI
    rw [run_append, run_cons, run_nil, hstep _ b hreached, ih]
    constructor
    · rintro (hsets | ⟨⟨before, a, between, rfl, hsets, hkept⟩, hb⟩)
      · exact ⟨as, b, [], rfl, hsets, by simp⟩
      · refine ⟨before, a, between ++ [b], by simp, hsets, ?_⟩
        rintro c hc
        rcases List.mem_append.mp hc with hc | hc
        · exact hkept c hc
        · rwa [List.mem_singleton.mp hc]
    · rintro ⟨before, a, between, heq, hsets, hkept⟩
      -- the input that brought it about is the last one, or an earlier one
      rcases List.eq_nil_or_concat' between with rfl | ⟨between, c, rfl⟩
      · obtain ⟨rfl, hab⟩ := List.append_inj' heq rfl
        cases hab
        exact .inl hsets
      · rw [← List.cons_append, ← List.append_assoc] at heq
        obtain ⟨rfl, hbc⟩ := List.append_inj' heq rfl
        cases hbc
        exact .inr ⟨⟨before, a, between, rfl, hsets,
          fun c hc => hkept c (List.mem_append_left _ hc)⟩, hkept b (by simp)⟩

/-! ## Two runs -/

section TwoRuns

variable {log : S → List E} (hgrow : ∀ s a, log s <+: log (step s a))

include hgrow

/-- Logs only grow. -/
theorem log_prefix_run (s : S) (as : List A) : log s <+: log (run step s as) := by
  induction as generalizing s with
  | nil => exact List.prefix_rfl
  | cons a as ih => exact (hgrow s a).trans (ih (step s a))

/-- Two runs that differ in what they logged have different logs to the end. -/
theorem log_run_ne {s t : S} {es : List E} {e f : E} (hne : e ≠ f) (hs : log s = es ++ [e])
    (ht : log t = es ++ [f]) (as bs : List A) : log (run step s as) ≠ log (run step t bs) := by
  obtain ⟨rest, hrest⟩ := log_prefix_run hgrow s as
  obtain ⟨rest', hrest'⟩ := log_prefix_run hgrow t bs
  rw [← hrest, ← hrest', hs, ht, List.append_assoc, List.append_assoc]
  intro heq
  exact hne (List.cons.inj (List.append_cancel_left heq)).1

/-- Two runs on alike inputs leave the same log if and only if at every step the inputs show the
same. Inputs that show the same keep the states related, and inputs that do not are logged
differently. -/
theorem log_run_eq_iff {R : S → S → Prop} {Alike : A → A → Prop} {view : S → A → V}
    (hlog : ∀ {s t}, R s t → log s = log t)
    (hsame : ∀ {s t a b}, R s t → Alike a b → view s a = view t b → R (step s a) (step t b))
    (hdiffer : ∀ {s t a b}, R s t → Alike a b → view s a ≠ view t b →
      ∃ e f, e ≠ f ∧ log (step s a) = log s ++ [e] ∧ log (step t b) = log t ++ [f])
    {s t : S} (hst : R s t) {as bs : List A} (halike : List.Forall₂ Alike as bs) :
    log (run step s as) = log (run step t bs) ↔
      ∀ k a b, as[k]? = some a → bs[k]? = some b →
        view (run step s (as.take k)) a = view (run step t (bs.take k)) b := by
  induction halike generalizing s t with
  | nil => exact iff_of_true (hlog hst) (by simp)
  | @cons a b as bs hab hrest ih =>
    rw [run_cons, run_cons]
    -- if the first inputs show different things, the logs part here for good
    by_cases hview : view s a = view t b
    · rw [ih (hsame hst hab hview)]
      constructor
      · rintro hall (_ | k) a' b' ha hb
        · cases ha
          cases hb
          exact hview
        · exact hall k a' b' ha hb
      · exact fun hall k => hall (k + 1)
    · obtain ⟨e, f, hne, hs, ht⟩ := hdiffer hst hab hview
      rw [← hlog hst] at ht
      exact iff_of_false (log_run_ne hgrow hne hs ht as bs) fun hall => hview (hall 0 a b rfl rfl)

end TwoRuns

/-! ## Answers and parts of the state -/

section Answers

variable {O T : Type} {act : S → A → O × S}

/-- What a machine answers to a series of inputs, each answer with its input. -/
def answers (act : S → A → O × S) : S → List A → List (A × O)
  | _, [] => []
  | s, a :: as => (a, (act s a).1) :: answers act (act s a).2 as

/-- The state after an input. -/
def next (act : S → A → O × S) (s : S) (a : A) : S := (act s a).2

/-- The answers to a run that is cut are those to its two parts. -/
theorem answers_append (s : S) (as bs : List A) :
    answers act s (as ++ bs) = answers act s as ++ answers act (run (next act) s as) bs := by
  induction as generalizing s with
  | nil => rfl
  | cons a as ih =>
    rw [List.cons_append, answers, ih]
    rfl

variable {view : S → T} {part : T → A → O × T} {own : A → Bool}

/-- A part of the state that is a machine of its own ends up where its own inputs take it. -/
theorem view_run (hown : ∀ s a, own a → view (act s a).2 = (part (view s) a).2)
    (hother : ∀ s a, ¬own a → view (act s a).2 = view s) (s : S) (as : List A) :
    view (run (next act) s as) = run (next part) (view s) (as.filter own) := by
  induction as generalizing s with
  | nil => rfl
  | cons a as ih =>
    rw [run_cons, ih, next]
    by_cases ha : own a
    · rw [List.filter_cons_of_pos ha, run_cons, hown s a ha]
      rfl
    · rw [List.filter_cons_of_neg ha, hother s a ha]

variable (own) in
/-- Two machines of which one has further inputs, as long as those are not seen in its answers: the
states are related in view of the inputs to come, an input of both is answered alike, and a further
one keeps the relation. -/
theorem answers_filter_of_rel {R : List A → S → T → Prop}
    (hown : ∀ s t a as, R (a :: as) s t → own a →
      (act s a).1 = (part t a).1 ∧ R as (act s a).2 (part t a).2)
    (hother : ∀ s t a as, R (a :: as) s t → ¬own a → R as (act s a).2 t) {s : S} {t : T}
    {as : List A} (h : R as s t) :
    (answers act s as).filter (own ·.1) = answers part t (as.filter own) := by
  induction as generalizing s t with
  | nil => rfl
  | cons a as ih =>
    rw [answers, List.filter_cons, List.filter_cons]
    by_cases ha : own a
    · obtain ⟨hanswer, hrel⟩ := hown s t a as h ha
      rw [if_pos ha, if_pos ha, answers, hanswer, ih hrel]
    · rw [if_neg ha, if_neg ha, ih (hother s t a as h ha)]

/-- Such a part answers its own inputs as if there were no others. -/
theorem answers_filter (hown : ∀ s a, own a → (act s a).1 = (part (view s) a).1 ∧
      view (act s a).2 = (part (view s) a).2)
    (hother : ∀ s a, ¬own a → view (act s a).2 = view s) (s : S) (as : List A) :
    (answers act s as).filter (own ·.1) = answers part (view s) (as.filter own) := by
  apply answers_filter_of_rel own (R := fun _ s t => view s = t)
  · rintro s _ a _ rfl ha
    exact hown s a ha
  · rintro s _ a _ rfl ha
    exact hother s a ha
  · rfl

end Answers

end Machine
