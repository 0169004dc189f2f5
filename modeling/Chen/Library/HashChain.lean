import Mathlib.Data.List.Induction

/-!
# Hash chains

A chain of entries, each of which names the hash of the entry before it; the first one names a root
that is the hash of no entry. The hash of the last entry then stands for all of them.
-/

namespace HashChain

variable {E H : Type} {hash prev : E → H} {root : H} {es fs : List E}

variable (hash prev) in
/-- Every entry names the hash of the one before it. -/
def Linked : H → List E → Prop
  | _, [] => True
  | root, e :: es => prev e = root ∧ Linked (hash e) es

variable (hash root) in
/-- The hash that the next entry has to name. -/
def tip (es : List E) : H := (es.getLast?.map hash).getD root

@[simp] theorem tip_nil : tip hash root ([] : List E) = root := rfl

/-- The last entry's hash is the tip. -/
@[simp] theorem tip_append_singleton (es : List E) (e : E) :
    tip hash root (es ++ [e]) = hash e := by
  rw [tip, List.getLast?_concat]
  rfl

/-- The tip of a chain is that of its rest, begun at the first hash. -/
theorem tip_cons (e : E) (es : List E) : tip hash root (e :: es) = tip hash (hash e) es := by
  cases es using List.reverseRecOn with
  | nil => rfl
  | append_singleton es f => rw [← List.cons_append, tip_append_singleton, tip_append_singleton]

/-- A chain grows by an entry that names its tip. -/
theorem linked_append_singleton (e : E) :
    Linked hash prev root (es ++ [e]) ↔
      Linked hash prev root es ∧ prev e = tip hash root es := by
  induction es generalizing root with
  | nil => simp [Linked]
  | cons f es ih => rw [List.cons_append, Linked, ih, Linked, tip_cons, and_assoc]

/-- The beginning of a chain is a chain. -/
theorem Linked.of_append (h : Linked hash prev root (es ++ fs)) : Linked hash prev root es := by
  induction es generalizing root with
  | nil => trivial
  | cons e es ih => exact ⟨h.1, ih h.2⟩

/-- The first entry names the root, and every other the hash of the one before it. -/
theorem Linked.prev_eq (h : Linked hash prev root es) :
    (∀ e, es[0]? = some e → prev e = root) ∧
      ∀ i e f, es[i]? = some e → es[i + 1]? = some f → prev f = hash e := by
  induction es generalizing root with
  | nil => simp
  | cons e es ih =>
    obtain ⟨he, hes⟩ := h
    obtain ⟨hfirst, hmore⟩ := ih hes
    constructor
    · rintro e' h
      cases h
      exact he
    · rintro (_ | i) e' f hi hnext
      · cases hi
        exact hfirst f hnext
      · exact hmore i e' f hi hnext

/-- Two chains with one tip are the same chain, if the hash tells their entries apart. The root is
no entry's hash, so that they also begin together. -/
theorem eq_of_tip_eq (hinj : ∀ e ∈ es, ∀ f ∈ fs, hash e = hash f → e = f)
    (hroot : ∀ e ∈ es, hash e ≠ root) (hroot' : ∀ f ∈ fs, hash f ≠ root)
    (hes : Linked hash prev root es) (hfs : Linked hash prev root fs)
    (htip : tip hash root es = tip hash root fs) : es = fs := by
  -- from the ends of both chains backwards
  induction es using List.reverseRecOn generalizing fs with
  | nil =>
    cases fs using List.reverseRecOn with
    | nil => rfl
    | append_singleton fs f =>
      rw [tip_nil, tip_append_singleton] at htip
      exact absurd htip.symm (hroot' f (by simp))
  | append_singleton es e ih =>
    cases fs using List.reverseRecOn with
    | nil =>
      rw [tip_nil, tip_append_singleton] at htip
      exact absurd htip (hroot e (by simp))
    | append_singleton fs f =>
      rw [tip_append_singleton, tip_append_singleton] at htip
      have hef : e = f := hinj e (by simp) f (by simp) htip
      obtain ⟨hes, he⟩ := (linked_append_singleton e).mp hes
      obtain ⟨hfs, hf⟩ := (linked_append_singleton f).mp hfs
      have hbefore : es = fs := by
        apply ih
        · exact fun e' he' f' hf' => hinj e' (by simp [he']) f' (by simp [hf'])
        · exact fun e' he' => hroot e' (by simp [he'])
        · exact fun f' hf' => hroot' f' (by simp [hf'])
        · exact hes
        · exact hfs
        · rw [← he, ← hf, hef]
      rw [hbefore, hef]

end HashChain
