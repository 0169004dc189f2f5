import Chen.Python.Regex

/-!
# The matches of a regular expression

`re.findall` depends on where a match ends, and so on the order in which `re` tries the ways to
match: a repetition takes as much as it can first, and gives back later.
-/

namespace Chen

namespace Re

/-- Zero or more steps, each of which moves on; more steps are tried before fewer. -/
def starTries (step : Pos → List Pos) : ℕ → Pos → List Pos
  | 0, q => [q]
  | n + 1, q =>
    ((step q).flatMap fun q' =>
      if q'.rest.length < q.rest.length then starTries step n q' else []) ++ [q]

/-- The positions of `ends`, in the order in which `re` tries them. -/
def tries : Re → Pos → List Pos
  | chr p, q => (chr p).ends q
  | seq r s, q => (r.tries q).flatMap s.tries
  | alt r s, q => r.tries q ++ s.tries q
  | star r, q => starTries r.tries q.rest.length q
  | look p, q => (look p).ends q

/-- `r?`. -/
def opt (r : Re) : Re := alt r (look fun _ _ => true)

/-- The matches of an expression that matches no empty text; the first `skip` characters belong to
the match before them. -/
def findallFrom (r : Re) : ℕ → Option Char → List Char → List (List Char)
  | _, _, [] => []
  | skip + 1, _, c :: cs => r.findallFrom skip (some c) cs
  | 0, prev, c :: cs =>
    match (r.tries ⟨prev, c :: cs⟩).head? with
    | some q =>
      let n := (c :: cs).length - q.rest.length
      (c :: cs).take n :: r.findallFrom (n - 1) (some c) cs
    | none => r.findallFrom 0 (some c) cs

/-- `re.findall`, for an expression without groups that matches no empty text. -/
def findall (r : Re) (text : String) : List String :=
  (r.findallFrom 0 none text.toList).map String.ofList

/-! ## The order of the tries -/

section

variable {p : Char → Bool} {c : Char}

theorem tries_chr_pos (hc : p c) (prev : Option Char) (text : List Char) :
    (chr p).tries ⟨prev, c :: text⟩ = [⟨some c, text⟩] := if_pos hc

theorem tries_chr_neg (hc : ¬p c) (prev : Option Char) (text : List Char) :
    (chr p).tries ⟨prev, c :: text⟩ = [] := if_neg hc

end

/-- The match that `re` reports at the start of `text` leaves `rest`, whatever stands before. -/
def Leaves (r : Re) (text rest : List Char) : Prop :=
  ∀ prev, ∃ prev', (r.tries ⟨prev, text⟩).head? = some ⟨prev', rest⟩

section

variable {p : Char → Bool} {r s : Re} {c : Char} {text rest : List Char}

/-- The class takes one of its characters. -/
theorem leaves_chr (hc : p c) : (chr p).Leaves (c :: text) text :=
  fun prev => ⟨some c, by rw [tries_chr_pos hc]; rfl⟩

/-- Two expressions in sequence take what they take one behind the other. -/
theorem Leaves.seq {rest' : List Char} (hr : r.Leaves text rest) (hs : s.Leaves rest rest') :
    (seq r s).Leaves text rest' := by
  intro prev
  obtain ⟨prev₁, h₁⟩ := hr prev
  obtain ⟨prev₂, h₂⟩ := hs prev₁
  obtain ⟨tl, htl⟩ := List.head?_eq_some_iff.mp h₁
  exact ⟨prev₂, by rw [tries, htl, List.flatMap_cons, List.head?_append, h₂]; rfl⟩

/-- A repeated character is taken as often as it stands there. -/
theorem leaves_star_chr (text : List Char) : (star (chr p)).Leaves text (text.dropWhile p) := by
  intro prev
  rw [tries]
  show ∃ prev', (starTries (chr p).tries text.length ⟨prev, text⟩).head? = _
  induction text generalizing prev with
  | nil => exact ⟨prev, rfl⟩
  | cons c cs ih =>
    rw [List.length_cons, starTries]
    by_cases hc : p c
    · obtain ⟨prev', h⟩ := ih (some c)
      refine ⟨prev', ?_⟩
      have hlt : cs.length < (c :: cs).length := Nat.lt_succ_self _
      rw [tries_chr_pos hc, List.flatMap_singleton, if_pos hlt, List.head?_append, h,
        List.dropWhile_cons_of_pos hc]
      rfl
    · refine ⟨prev, ?_⟩
      rw [tries_chr_neg hc, List.dropWhile_cons_of_neg hc]
      rfl

/-- `+` takes all characters of its class that stand in front. -/
theorem leaves_plus_chr (hc : p c) :
    (plus (chr p)).Leaves (c :: text) ((c :: text).dropWhile p) := by
  rw [List.dropWhile_cons_of_pos hc]
  exact (leaves_chr hc).seq (leaves_star_chr text)

/-- `?` takes its character where it stands. -/
theorem leaves_opt_pos (hc : p c) : (opt (chr p)).Leaves (c :: text) text := by
  intro prev
  obtain ⟨prev', h⟩ := leaves_chr hc prev
  exact ⟨prev', by rw [opt, tries, List.head?_append, h]; rfl⟩

/-- `?` takes nothing where its character does not stand. -/
theorem leaves_opt_neg (hc : ∀ c ∈ text.head?, ¬p c) : (opt (chr p)).Leaves text text := by
  intro prev
  refine ⟨prev, ?_⟩
  have hnone : (chr p).tries ⟨prev, text⟩ = [] := by
    cases text with
    | nil => rfl
    | cons c cs => exact tries_chr_neg (hc c rfl) prev cs
  rw [opt, tries, hnone]
  rfl

/-- The next match. -/
theorem findallFrom_of_leaves {n : List Char} (h : r.Leaves (c :: text) rest)
    (hn : n ++ rest = c :: text) (prev : Option Char) :
    r.findallFrom 0 prev (c :: text) = n :: r.findallFrom (n.length - 1) (some c) text := by
  obtain ⟨prev', hq⟩ := h prev
  have hlen : (c :: text).length - rest.length = n.length := by
    rw [← hn, List.length_append, Nat.add_sub_cancel]
  have htake : (c :: text).take n.length = n := by rw [← hn, List.take_left]
  rw [findallFrom, hq]
  show List.take ((c :: text).length - rest.length) _ ::
    findallFrom _ ((c :: text).length - rest.length - 1) _ _ = _
  rw [hlen, htake]

/-- Where nothing matches, the search goes on at the next character. -/
theorem findallFrom_of_none {prev : Option Char} (h : r.tries ⟨prev, c :: text⟩ = []) :
    r.findallFrom 0 prev (c :: text) = r.findallFrom 0 (some c) text := by
  rw [findallFrom, h]
  rfl

end

end Re

end Chen
