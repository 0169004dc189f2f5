import Chen.Core.MemoryMap
import Chen.Library.Ranking
import Mathlib.Algebra.Order.Ring.Unbundled.Rat

/-!
# Retrieval

`retrieve` returns the entries that pass its filters and are most similar to the query. It gives an
embedding to an entry that has none, but no write leaves such an entry, so that it changes nothing.
The similarities may be of any linear order.
-/

namespace Chen

variable [Hashlib]

namespace InMemoryMemory

/-- The entry has the role, if one is asked for, and enough confidence. -/
def passes (role : Option String) (minConfidence : ℚ) (e : MemoryEntry) : Bool :=
  role.all (· = e.role) && decide (minConfidence ≤ e.confidence)

section Model

variable {R : Type} [LinearOrder R] (npDot : List ℚ → List ℚ → Except Exn R)

/-- The loop of `retrieve`: the entries that pass, each with its similarity, and all the entries
afterwards. -/
def scoreEntries (m : InMemoryMemory) (q : List ℚ) (role : Option String) (minConfidence : ℚ) :
    List MemoryEntry → Except Exn (List (R × MemoryEntry)) × List MemoryEntry
  | [] => (.ok [], [])
  | e :: es =>
    if passes role minConfidence e then
      -- the embedding is stored in the entry
      let e := m.embedded e
      match npDot q (e.embedding.getD (m.embed e.text)) with
      | .error x => (.error x, e :: es)
      | .ok sim =>
        let (scored, es) := m.scoreEntries q role minConfidence es
        (scored.map ((sim, e) :: ·), e :: es)
    else
      let (scored, es) := m.scoreEntries q role minConfidence es
      (scored, e :: es)

/-- `retrieve` with its effect, where `npDot` is `np.dot`. -/
def retrieving (query : String) (k : ℤ) (role : Option String) (minConfidence : ℚ)
    (m : InMemoryMemory) : Except Exn (List MemoryEntry) × InMemoryMemory :=
  if m.entries = [] then (.ok [], m)
  else
    let (scored, entries) :=
      m.scoreEntries npDot (m.embed query) role minConfidence m.entries
    (scored.map fun scored =>
        (sliceTo (scored.insertionSort fun a b => b.1 ≤ a.1) k).map (·.2),
      { m with entries })

end Model

end InMemoryMemory

/-- A call of a memory. -/
inductive MemoryUse where
  | change (call : MemoryCall)
  | retrieve (query : String) (k : ℤ) (role : Option String) (minConfidence : ℚ)

/-- The memory after a call. -/
def MemoryUse.step {R : Type} [LinearOrder R] (npDot : List ℚ → List ℚ → Except Exn R)
    (m : InMemoryMemory) : MemoryUse → InMemoryMemory
  | change call => call.act m
  | retrieve query k role minConfidence => (m.retrieving npDot query k role minConfidence).2

namespace InMemoryMemory

open Ranking (rank)

/-- Every entry has an embedding. -/
def Embedded (m : InMemoryMemory) : Prop := ∀ e ∈ m.entries, e.embedding.isSome

variable {m : InMemoryMemory} {e entry : MemoryEntry}

omit [Hashlib] in
/-- An entry that has an embedding is not embedded again. -/
theorem embedded_of_isSome (h : e.embedding.isSome) (m : InMemoryMemory) : m.embedded e = e := by
  obtain ⟨v, hv⟩ := Option.isSome_iff_exists.mp h
  cases e
  cases hv
  rfl

/-- A write stores its entry with an embedding. -/
theorem Embedded.write (h : m.Embedded) (entry : MemoryEntry) : (m.write entry).2.Embedded := by
  intro e he
  cases hlookup : m.index.lookup entry.id with
  | none =>
    rw [write_of_lookup_none hlookup] at he
    rcases List.mem_append.mp he with he | he
    · exact h e he
    · rw [List.mem_singleton.mp he]
      rfl
  | some i =>
    rw [write_of_lookup_some hlookup] at he
    obtain ⟨j, hj⟩ := List.mem_iff_getElem?.mp he
    rw [List.getElem?_modify] at hj
    obtain ⟨old, hold, rfl⟩ := Option.map_eq_some_iff.mp hj
    split
    · rfl
    · exact h old (List.mem_of_getElem? hold)

/-- A write does not change the embedding function. -/
theorem embed_write (m : InMemoryMemory) (entry : MemoryEntry) :
    (m.write entry).2.embed = m.embed := by
  cases hlookup : m.index.lookup entry.id with
  | none => rw [write_of_lookup_none hlookup]
  | some i => rw [write_of_lookup_some hlookup]

/-! ## The loop -/

section Loop

variable {R : Type} [LinearOrder R] {npDot : List ℚ → List ℚ → Except Exn R} {q : List ℚ}
  {role : Option String} {minConfidence : ℚ} {es : List MemoryEntry}

omit [Hashlib] [LinearOrder R] in
/-- Entries with embeddings are left as they are. -/
theorem scoreEntries_snd (h : ∀ e ∈ es, e.embedding.isSome) :
    (m.scoreEntries npDot q role minConfidence es).2 = es := by
  induction es with
  | nil => rfl
  | cons e es ih =>
    obtain ⟨he, hes⟩ := List.forall_mem_cons.mp h
    rw [scoreEntries, embedded_of_isSome he]
    split
    · dsimp only
      split
      · rfl
      · exact congrArg (e :: ·) (ih hes)
    · exact congrArg (e :: ·) (ih hes)

omit [Hashlib] [LinearOrder R] in
/-- The entries that pass, in order, each with its similarity. -/
theorem scoreEntries_fst (h : ∀ e ∈ es, e.embedding.isSome) :
    (m.scoreEntries npDot q role minConfidence es).1 =
      (es.filter (passes role minConfidence)).mapM fun e => do
        let sim ← npDot q (e.embedding.getD (m.embed e.text))
        return (sim, e) := by
  induction es with
  | nil => rfl
  | cons e es ih =>
    obtain ⟨he, hes⟩ := List.forall_mem_cons.mp h
    rw [scoreEntries, embedded_of_isSome he]
    split
    · rename_i hpass
      rw [List.filter_cons_of_pos hpass, List.mapM_cons, ← ih hes]
      dsimp only
      cases npDot q (e.embedding.getD (m.embed e.text)) with
      | error x => rfl
      | ok sim =>
        show (m.scoreEntries npDot q role minConfidence es).1.map _ = _
        cases (m.scoreEntries npDot q role minConfidence es).1 <;> rfl
    · rename_i hpass
      rw [List.filter_cons_of_neg hpass, ← ih hes]

omit [Hashlib] in
/-- With embeddings for all, `retrieve` changes nothing. -/
theorem Embedded.retrieving_snd (h : m.Embedded) (npDot : List ℚ → List ℚ → Except Exn R)
    (query : String) (k : ℤ) (role : Option String) (minConfidence : ℚ) :
    (m.retrieving npDot query k role minConfidence).2 = m := by
  rw [retrieving]
  split
  · rfl
  · have hentries : (m.scoreEntries npDot (m.embed query) role minConfidence m.entries).2 =
        m.entries := scoreEntries_snd h
    exact congrArg (fun entries => { m with entries }) hentries

omit [Hashlib] in
/-- A query returns the top entries by their similarity. -/
theorem Embedded.retrieving_fst (h : m.Embedded) (query : String) (k : ℤ) (role : Option String)
    (minConfidence : ℚ) {sim : MemoryEntry → R}
    (hsim : ∀ e ∈ m.entries.filter (passes role minConfidence),
      npDot (m.embed query) (e.embedding.getD (m.embed e.text)) = .ok (sim e)) :
    (m.retrieving npDot query k role minConfidence).1 =
      .ok (sliceTo (Ranking.rank sim (m.entries.filter (passes role minConfidence))) k) := by
  have hscored : (m.scoreEntries npDot (m.embed query) role minConfidence m.entries).1 =
      .ok ((m.entries.filter (passes role minConfidence)).map fun e => (sim e, e)) := by
    rw [scoreEntries_fst h, Effect.except_mapM_eq_ok, List.forall₂_map_right_iff,
      List.forall₂_same]
    intro e he
    rw [hsim e he]
    rfl
  -- sorting the pairs by similarity sorts the entries, with the same ties
  have hrank (es : List MemoryEntry) :
      (es.map fun e => (sim e, e)).insertionSort (fun a b => b.1 ≤ a.1) =
        (rank sim es).map fun e => (sim e, e) :=
    (List.map_insertionSort (fun x y => sim y ≤ sim x) (fun a b => b.1 ≤ a.1)
      (fun e => (sim e, e)) es fun _ _ _ _ => Iff.rfl).symm
  rw [retrieving]
  split
  · rename_i hempty
    rw [hempty, List.filter_nil]
    simp [rank, sliceTo]
  · show (m.scoreEntries npDot (m.embed query) role minConfidence m.entries).1.map _ = _
    rw [hscored, Except.map, hrank, map_sliceTo, List.map_map]
    exact congrArg (fun es => Except.ok (sliceTo es k)) (List.map_id _)

end Loop

omit [Hashlib] in
/-- Where every entry has an embedding, this is the retrieval without effects. -/
theorem Embedded.retrieving_checkedDot (h : m.Embedded) (query : String) (k : ℤ)
    (role : Option String) (minConfidence : ℚ) :
    m.retrieving checkedDot query k role minConfidence =
      (m.checkedRetrieve query k role minConfidence, m) := by
  refine Prod.ext ?_ (h.retrieving_snd ..)
  rw [retrieving, checkedRetrieve]
  split
  · rfl
  · show (m.scoreEntries checkedDot (m.embed query) role minConfidence m.entries).1.map _ = _
    rw [scoreEntries_fst h]
    rfl

end InMemoryMemory

namespace MemoryUse

open InMemoryMemory

variable {R : Type} [LinearOrder R] (npDot : List ℚ → List ℚ → Except Exn R)

/-- Every call keeps the embeddings and the function that computes them. -/
theorem step_spec (m : InMemoryMemory) (use : MemoryUse) (h : m.Embedded) :
    (use.step npDot m).Embedded ∧ (use.step npDot m).embed = m.embed := by
  cases use with
  | change call =>
    cases call with
    | write entry => exact ⟨h.write entry, embed_write m entry⟩
    | clear => exact ⟨List.forall_mem_nil _, rfl⟩
  | retrieve query k role minConfidence =>
    rw [step, h.retrieving_snd]
    exact ⟨h, rfl⟩

/-- In every memory that calls lead to, all entries have embeddings. -/
theorem run_spec (embed : String → List ℚ) (uses : List MemoryUse) :
    (Machine.run (step npDot) { embed } uses).Embedded ∧
      (Machine.run (step npDot) { embed } uses).embed = embed := by
  refine Machine.run_invariant (I := fun m : InMemoryMemory => m.Embedded ∧ m.embed = embed) ?_ ?_
  · rintro m use - ⟨hembedded, hembed⟩
    obtain ⟨hafter, hkept⟩ := use.step_spec npDot m hembedded
    exact ⟨hafter, hkept.trans hembed⟩
  · exact ⟨List.forall_mem_nil _, rfl⟩

/-- After any series of calls, `retrieve` returns the `k` most similar of the entries that pass both
filters, in order, and leaves the memory as it is. -/
theorem retrieving_isTop (embed : String → List ℚ) (uses : List MemoryUse) (query : String) (k : ℕ)
    (role : Option String) (minConfidence : ℚ) (sim : MemoryEntry → R) :
    let m := Machine.run (step npDot) { embed } uses
    let passing := m.entries.filter (passes role minConfidence)
    (∀ e ∈ passing, npDot (embed query) (e.embedding.getD (embed e.text)) = .ok (sim e)) →
      ∃ es, m.retrieving npDot query k role minConfidence = (.ok es, m) ∧
        Ranking.IsTop sim k passing es := by
  intro m passing hsim
  obtain ⟨hembedded, hembed⟩ := run_spec npDot embed uses
  have hfst : (m.retrieving npDot query k role minConfidence).1 =
      .ok (sliceTo (Ranking.rank sim (m.entries.filter (passes role minConfidence))) k) :=
    hembedded.retrieving_fst query k role minConfidence (by rwa [hembed])
  refine ⟨_, Prod.ext hfst (hembedded.retrieving_snd npDot query k role minConfidence), ?_⟩
  rw [sliceTo_natCast]
  exact Ranking.isTop_take_rank sim k passing

omit [Hashlib] in
/-- Three entries, of which two pass the filter and have different similarities. -/
theorem retrieving_isTop_two :
    let _ := Hashlib.checksum
    let m := Machine.run (step checkedDot) { embed := fun text => [text.length] }
      [.change (.write { text := "x", role := "r" }), .change (.write { text := "y" }),
        .change (.write { text := "xyz", role := "r" })]
    ∃ es, m.retrieving checkedDot "q" 1 (some "r") 0 = (.ok es, m) ∧
      Ranking.IsTop (fun e => (e.text.length : ℚ)) 1 (m.entries.filter (passes (some "r") 0)) es := by
  intro _ m
  refine retrieving_isTop checkedDot (fun text => [text.length]) _ "q" 1 (some "r") 0
    (fun e => e.text.length) ?_
  decide +kernel

end MemoryUse

end Chen
