import Mathlib.Data.List.Sort

/-!
# Ranking

A stable sort that puts the highest keys first, and the first `m` places of it. An item has a
place among the first `m` when fewer than `m` items outrank it, so a kind of item is absent from
them when at least `m` items outrank every item of the kind.
-/

namespace Chen.Ranking

variable {α R : Type} [LinearOrder R]

/-- `xs`, highest keys first; items with the same key stay in order. -/
def rank (key : α → R) (xs : List α) : List α := xs.insertionSort fun x y => key y ≤ key x

/-- `x` outranks `y`: its key is higher, or the keys are the same and `x` stood before `y`. -/
def Outranks (key : α → R) (before : α → α → Prop) (x y : α) : Prop :=
  key y < key x ∨ key x = key y ∧ before x y

instance (key : α → R) (before : α → α → Prop) [DecidableRel before] :
    DecidableRel (Outranks key before) := fun _ _ => inferInstanceAs (Decidable (_ ∨ _))

/-- `a` first occurs in `xs` before `b` does. -/
def Earlier {β : Type} [DecidableEq β] (xs : List β) (a b : β) : Prop := xs.idxOf a < xs.idxOf b

instance {β : Type} [DecidableEq β] (xs : List β) : DecidableRel (Earlier xs) :=
  fun _ _ => inferInstanceAs (Decidable (_ < _))

/-! ## Positions -/

section Earlier

variable {β : Type} [DecidableEq β] {xs : List β} {a b : β}

/-- Of two elements, at most one is earlier than the other. -/
theorem Earlier.asymm (h : Earlier xs a b) : ¬ Earlier xs b a := lt_asymm h

/-- What is appended does not change the order of what was there. -/
theorem Earlier.append (h : Earlier xs a b) (ha : a ∈ xs) (hb : b ∈ xs) (ys : List β) :
    Earlier (xs ++ ys) a b := by
  rwa [Earlier, List.idxOf_append_of_mem ha, List.idxOf_append_of_mem hb]

/-- What is new comes last. -/
theorem earlier_append_new (ha : a ∈ xs) (hb : b ∉ xs) : Earlier (xs ++ [b]) a b := by
  have hlt : xs.idxOf a < xs.length := List.idxOf_lt_length_of_mem ha
  rw [Earlier, List.idxOf_append_of_mem ha, List.idxOf_append_of_notMem hb]
  omega

/-- In a list without repetition every element is earlier than those behind it. -/
theorem pairwise_earlier (h : xs.Nodup) : xs.Pairwise (Earlier xs) := by
  rw [List.pairwise_iff_getElem]
  intro i j hi hj hij
  rwa [Earlier, h.idxOf_getElem i hi, h.idxOf_getElem j hj]

/-- A list in strict order has no duplicates. -/
theorem nodup_of_pairwise_earlier {ys : List β} (h : ys.Pairwise (Earlier xs)) : ys.Nodup := by
  refine List.Pairwise.imp ?_ h
  rintro a b hab rfl
  exact lt_irrefl _ hab

end Earlier

/-! ## The ranking -/

variable {key : α → R} {before : α → α → Prop}

/-- A ranking has the elements of its list. -/
theorem rank_perm (key : α → R) (xs : List α) : (rank key xs).Perm xs :=
  List.perm_insertionSort ..

/-- A ranking has the elements of its list. -/
@[simp] theorem mem_rank {xs : List α} {x : α} : x ∈ rank key xs ↔ x ∈ xs :=
  (rank_perm key xs).mem_iff

/-- A ranking is as long as its list. -/
@[simp] theorem length_rank (key : α → R) (xs : List α) : (rank key xs).length = xs.length :=
  (rank_perm key xs).length_eq

/-- Who outranks another has at least the same key. -/
theorem Outranks.le {x y : α} (h : Outranks key before x y) : key y ≤ key x :=
  h.elim le_of_lt fun h => h.1.ge

/-- Of two elements, at most one outranks the other. -/
theorem Outranks.asymm (hb : ∀ x y, before x y → ¬ before y x) {x y : α}
    (h : Outranks key before x y) : ¬ Outranks key before y x := by
  rintro (h' | ⟨he, hyx⟩)
  · exact absurd h.le (not_le.mpr h')
  · rcases h with h | ⟨-, hxy⟩
    · exact absurd he h.ne
    · exact hb x y hxy hyx

/-- Inserting an item that stood before all the others. -/
theorem pairwise_orderedInsert {x : α} {ys : List α} (hx : ∀ y ∈ ys, before x y)
    (hys : ys.Pairwise (Outranks key before)) :
    (ys.orderedInsert (fun x y => key y ≤ key x) x).Pairwise (Outranks key before) := by
  induction ys with
  | nil => simp
  | cons y ys ih =>
    obtain ⟨hy, hys'⟩ := List.pairwise_cons.mp hys
    by_cases h : key y ≤ key x
    · rw [List.orderedInsert_cons_of_le (fun x y => key y ≤ key x) _ h]
      refine List.pairwise_cons.mpr ⟨?_, hys⟩
      intro z hz
      have hzy : key z ≤ key y := by
        rcases List.mem_cons.mp hz with rfl | hz
        · exact le_rfl
        · exact (hy z hz).le
      rcases (hzy.trans h).lt_or_eq with hlt | heq
      · exact .inl hlt
      · exact .inr ⟨heq.symm, hx z hz⟩
    · rw [List.orderedInsert_of_not_le (fun x y => key y ≤ key x) _ h]
      have ih := ih (fun z hz => hx z (List.mem_cons_of_mem _ hz)) hys'
      refine List.pairwise_cons.mpr ⟨?_, ih⟩
      intro z hz
      rcases List.mem_orderedInsert _ |>.mp hz with rfl | hz
      · exact .inl (not_le.mp h)
      · exact hy z hz

/-- In a ranked list everything outranks what follows it. -/
theorem rank_pairwise {xs : List α} (h : xs.Pairwise before) :
    (rank key xs).Pairwise (Outranks key before) := by
  induction xs with
  | nil => exact List.Pairwise.nil
  | cons x xs ih =>
    obtain ⟨hx, hxs⟩ := List.pairwise_cons.mp h
    exact pairwise_orderedInsert (fun y hy => hx y (mem_rank.mp hy)) (ih hxs)

/-- The keys of a ranking descend. -/
theorem rank_desc (key : α → R) (xs : List α) :
    (rank key xs).Pairwise fun x y => key y ≤ key x := by
  have htrivial : xs.Pairwise fun _ _ => True := List.pairwise_of_forall fun _ _ => trivial
  exact (rank_pairwise htrivial).imp Outranks.le

/-- The best of a list with one more element, which wins its ties as the first one. -/
theorem head?_rank_cons (key : α → R) (x : α) (xs : List α) :
    (rank key (x :: xs)).head? =
      some (match (rank key xs).head? with
        | none => x
        | some y => if key y ≤ key x then x else y) := by
  rw [rank, List.insertionSort_cons, rank]
  cases xs.insertionSort fun x y => key y ≤ key x with
  | nil => rfl
  | cons y ys =>
    by_cases h : key y ≤ key x
    · simp [h]
    · simp [h]

/-- The first of the best of a longer list is its first item or is further on. -/
theorem first_best_cons_iff {a x : α} {xs : List α} :
    (∃ l r, a :: xs = l ++ x :: r ∧ (∀ y ∈ l, key y < key x) ∧ ∀ y ∈ r, key y ≤ key x) ↔
      (a = x ∧ ∀ y ∈ xs, key y ≤ key a) ∨ key a < key x ∧
        ∃ l r, xs = l ++ x :: r ∧ (∀ y ∈ l, key y < key x) ∧ ∀ y ∈ r, key y ≤ key x := by
  constructor
  · rintro ⟨l, r, hsplit, hl, hr⟩
    cases l with
    | nil =>
      obtain ⟨rfl, rfl⟩ := List.cons.inj hsplit
      exact .inl ⟨rfl, hr⟩
    | cons b l =>
      obtain ⟨rfl, htail⟩ := List.cons.inj hsplit
      obtain ⟨hb, hl⟩ := List.forall_mem_cons.mp hl
      exact .inr ⟨hb, l, r, htail, hl, hr⟩
  · rintro (⟨rfl, hle⟩ | ⟨hlt, l, r, rfl, hl, hr⟩)
    · exact ⟨[], xs, rfl, nofun, hle⟩
    · exact ⟨a :: l, r, rfl, List.forall_mem_cons.mpr ⟨hlt, hl⟩, hr⟩

/-- Nothing in the list is above the first of its ranking. -/
theorem le_of_head?_rank {xs : List α} {x : α} (h : (rank key xs).head? = some x) :
    x ∈ xs ∧ ∀ y ∈ xs, key y ≤ key x := by
  obtain ⟨ys, hys⟩ : ∃ ys, rank key xs = x :: ys := List.head?_eq_some_iff.mp h
  have hdesc := rank_desc key xs
  rw [hys] at hdesc
  refine ⟨mem_rank.mp (hys ▸ List.mem_cons_self ..), fun y hy => ?_⟩
  have hmem : y ∈ rank key xs := mem_rank.mpr hy
  rw [hys] at hmem
  rcases List.mem_cons.mp hmem with rfl | hmem
  · exact le_rfl
  · exact (List.pairwise_cons.mp hdesc).1 y hmem

/-- The first of a ranked list is the first of the best. -/
theorem head?_rank_eq_some_iff {xs : List α} {x : α} :
    (rank key xs).head? = some x ↔
      ∃ l r, xs = l ++ x :: r ∧ (∀ y ∈ l, key y < key x) ∧ ∀ y ∈ r, key y ≤ key x := by
  induction xs with
  | nil => simp [rank]
  | cons a xs ih =>
    rw [head?_rank_cons, first_best_cons_iff, ← ih, Option.some.injEq]
    cases htop : (rank key xs).head? with
    | none =>
      have hnil : xs = [] := by
        simpa [List.head?_eq_none_iff, ← List.length_eq_zero_iff] using htop
      simp [hnil]
    | some y =>
      obtain ⟨hy, hmax⟩ := le_of_head?_rank htop
      have hall : (∀ z ∈ xs, key z ≤ key a) ↔ key y ≤ key a :=
        ⟨fun h => h y hy, fun h z hz => (hmax z hz).trans h⟩
      rw [hall]
      show (if key y ≤ key a then a else y) = x ↔ _
      -- `a` comes first, so it also wins its ties with `y`
      by_cases hle : key y ≤ key a
      · have hno : ¬ (key a < key x ∧ some y = some x) := by
          rintro ⟨hlt, ⟨⟩⟩
          exact absurd hle (not_le.mpr hlt)
        rw [if_pos hle, or_iff_left hno, and_iff_left hle]
      · rw [if_neg hle, or_iff_right fun h => hle h.2, Option.some.injEq]
        constructor
        · rintro rfl
          exact ⟨not_le.mp hle, rfl⟩
        · exact And.right

/-- The first `m` places exist and none of them is an `F`, exactly when `m` items precede every
`F`. -/
theorem take_avoids_iff {S : α → α → Prop} [DecidableRel S] (F : α → Prop) [DecidablePred F]
    (asymm : ∀ {x y}, S x y → ¬ S y x) {ys : List α} (h : ys.Pairwise S) (m : ℕ) :
    (m ≤ ys.length ∧ ∀ x ∈ ys.take m, ¬ F x) ↔ m ≤ ys.countP fun x => ∀ f ∈ ys, F f → S x f := by
  induction ys generalizing m with
  | nil => simp
  | cons y ys ih =>
    obtain ⟨hy, hys⟩ := List.pairwise_cons.mp h
    by_cases hF : F y
    · -- nothing in the list precedes its first item
      have hzero : (y :: ys).countP (fun x => ∀ f ∈ y :: ys, F f → S x f) = 0 := by
        rw [List.countP_eq_zero]
        intro x hx hall
        have hxy : S x y := of_decide_eq_true hall y (List.mem_cons_self ..) hF
        rcases List.mem_cons.mp hx with rfl | hx
        · exact asymm hxy hxy
        · exact asymm hxy (hy x hx)
      rw [hzero]
      cases m with
      | zero => simp
      | succ m => simp [hF]
    -- the first item is one that precedes all of `F`, and the rest is by induction
    · have hcount : (y :: ys).countP (fun x => ∀ f ∈ y :: ys, F f → S x f) =
          ys.countP (fun x => ∀ f ∈ ys, F f → S x f) + 1 := by
        have hhead : ∀ f ∈ y :: ys, F f → S y f := by
          intro f hf hFf
          rcases List.mem_cons.mp hf with rfl | hf
          · exact absurd hFf hF
          · exact hy f hf
        have hpos : decide (∀ f ∈ y :: ys, F f → S y f) = true := decide_eq_true hhead
        rw [List.countP_cons_of_pos (p := fun x => decide (∀ f ∈ y :: ys, F f → S x f)) hpos]
        simp [hF]
      rw [hcount]
      cases m with
      | zero => simp
      | succ m => simpa [hF] using ih hys m

/-- The same for a list in strict order that holds the items of `xs` that are `ok`. -/
theorem take_filter_avoids_iff {S : α → α → Prop} [DecidableRel S] (F : α → Prop)
    [DecidablePred F] (ok : α → Prop) [DecidablePred ok] (asymm : ∀ {x y}, S x y → ¬ S y x)
    {xs ys : List α} (h : ys.Pairwise S) (hperm : ys.Perm (xs.filter ok)) (m : ℕ) :
    (m ≤ ys.length ∧ ∀ x ∈ ys.take m, ¬ F x) ↔
      m ≤ xs.countP fun x => ok x ∧ ∀ f ∈ xs, ok f → F f → S x f := by
  rw [take_avoids_iff F asymm h, hperm.countP_eq, List.countP_filter]
  have hcongr : ∀ x ∈ xs,
      (decide (∀ f ∈ ys, F f → S x f) && decide (ok x)) = true ↔
        decide (ok x ∧ ∀ f ∈ xs, ok f → F f → S x f) = true := by
    intro x _
    simp only [hperm.mem_iff, List.mem_filter, Bool.and_eq_true, decide_eq_true_eq, and_imp]
    exact and_comm
  rw [List.countP_congr hcongr]

/-- Filtering by a property that holds of a prefix commutes with taking one. -/
theorem filter_take_of_prefix {p : α → Bool} {ys : List α}
    (h : ys.Pairwise fun x y => p y = true → p x = true) (m : ℕ) :
    (ys.take m).filter p = (ys.filter p).take m := by
  induction ys generalizing m with
  | nil => simp
  | cons y ys ih =>
    obtain ⟨hy, hys⟩ := List.pairwise_cons.mp h
    cases m with
    | zero => simp
    | succ m =>
      by_cases hp : p y = true
      · simp [hp, ih hys]
      · have hnone : ∀ z ∈ ys, ¬ p z = true := fun z hz hpz => hp (hy z hz hpz)
        rw [List.take_succ_cons, List.filter_cons_of_neg hp, List.filter_cons_of_neg hp, ih hys,
          List.filter_eq_nil_iff.mpr hnone, List.take_nil, List.take_nil]

/-! ## The first places -/

/-- `ps` are items of `xs` with their positions, in the order of the ranking, and each of them
outranks every item that is left out. -/
structure Places (key : α → R) (xs : List α) (ps : List (α × ℕ)) : Prop where
  mem : ∀ p ∈ ps, xs[p.2]? = some p.1
  ranked : ps.Pairwise (Outranks (fun p => key p.1) fun p q => p.2 < q.2)
  left_out : ∀ p, xs[p.2]? = some p.1 → p ∉ ps →
    ∀ q ∈ ps, Outranks (fun p => key p.1) (fun p q => p.2 < q.2) q p

/-- `ys` are the `m` items of `xs` with the highest keys, or all of them where there are fewer:
highest keys first, items with the same key in order, and no position twice. -/
def IsTop (key : α → R) (m : ℕ) (xs ys : List α) : Prop :=
  ∃ ps, ps.map Prod.fst = ys ∧ ps.length = min m xs.length ∧ Places key xs ps

variable {xs ys : List α} {m : ℕ}

/-- The top `m` of a list are `m`, or all of it. -/
theorem IsTop.length (h : IsTop key m xs ys) : ys.length = min m xs.length := by
  obtain ⟨ps, rfl, hlen, -⟩ := h
  rw [List.length_map, hlen]

/-- The indices of a list increase. -/
theorem pairwise_zipIdx (xs : List α) : xs.zipIdx.Pairwise fun p q => p.2 < q.2 := by
  rw [← List.pairwise_map (f := Prod.snd) (R := (· < ·)), List.zipIdx_map_snd]
  exact List.pairwise_lt_range'

/-- Elements are ranked alike with their indices and without. -/
theorem rank_zipIdx (key : α → R) (xs : List α) :
    (rank (fun p => key p.1) xs.zipIdx).map Prod.fst = rank key xs := by
  rw [rank, List.map_insertionSort (s := fun x y => key y ≤ key x) _ _ _ fun p _ q _ => Iff.rfl,
    List.zipIdx_map_fst, rank]

/-- The first `m` of a ranking are the top `m`. -/
theorem isTop_take_rank (key : α → R) (m : ℕ) (xs : List α) :
    IsTop key m xs ((rank key xs).take m) := by
  have hranked : (rank (fun p : α × ℕ => key p.1) xs.zipIdx).Pairwise
      (Outranks (fun p => key p.1) fun p q => p.2 < q.2) := rank_pairwise (pairwise_zipIdx xs)
  refine ⟨(rank (fun p => key p.1) xs.zipIdx).take m, ?_, ?_, ?_, ?_, ?_⟩
  · rw [List.map_take, rank_zipIdx]
  · rw [List.length_take, length_rank, List.length_zipIdx]
  · intro p hp
    exact List.mk_mem_zipIdx_iff_getElem?.mp (mem_rank.mp (List.mem_of_mem_take hp))
  · exact hranked.sublist (List.take_sublist ..)
  · intro p hp hnot q hq
    have hmem : p ∈ rank (fun p : α × ℕ => key p.1) xs.zipIdx :=
      mem_rank.mpr (List.mk_mem_zipIdx_iff_getElem?.mpr hp)
    rw [← List.take_append_drop m (rank _ xs.zipIdx)] at hranked hmem
    have hdrop := (List.mem_append.mp hmem).resolve_left hnot
    exact (List.pairwise_append.mp hranked).2.2 q hq p hdrop

end Chen.Ranking
