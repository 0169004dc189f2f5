import Chen.Observability.AuditEntries
import Mathlib.Data.List.Infix

/-!
# Lines that were cut short

No text that begins with part of an entry's line is that of a JSON value, whether nothing comes
behind it or another entry. The reader is followed to the place of the cut: inside a string it takes
the other entry's brace and quote for its own, and elsewhere it finds a brace where none can stand.
-/

namespace Chen

/-- A beginning of two lists ends in the first one or reaches into the second. -/
theorem prefix_append_iff {α : Type} {w xs ys : List α} :
    w <+: xs ++ ys ↔ w <+: xs ∨ ∃ t, w = xs ++ t ∧ t <+: ys := by
  induction xs generalizing w with
  | nil =>
    refine ⟨fun h => .inr ⟨w, rfl, h⟩, ?_⟩
    rintro (h | ⟨t, rfl, h⟩)
    · exact (List.prefix_nil.mp h) ▸ List.nil_prefix
    · exact h
  | cons x xs ih =>
    rw [List.cons_append, List.prefix_cons_iff, List.prefix_cons_iff]
    simp only [ih, List.cons_append]
    constructor
    · rintro (rfl | ⟨t, rfl, h | ⟨u, rfl, h⟩⟩)
      · exact .inl (.inl rfl)
      · exact .inl (.inr ⟨t, rfl, h⟩)
      · exact .inr ⟨u, rfl, h⟩
    · rintro ((rfl | ⟨t, rfl, h⟩) | ⟨u, rfl, h⟩)
      · exact .inl rfl
      · exact .inr ⟨t, rfl, .inl h⟩
      · exact .inr ⟨xs ++ u, rfl, .inr ⟨u, rfl, h⟩⟩

namespace Json

/-- What comes behind the cut: nothing, or a dictionary whose first key begins with a letter. -/
def Torn (rest : List Char) : Prop :=
  rest = [] ∨ ∃ c tail, rest = '\x7b' :: '"' :: c :: tail ∧ c.isAlpha = true

/-- No colon, comma or brace comes next. -/
def Unclosed (after : List Char) : Prop :=
  ∀ c ∈ (skipSpace after).head?, c ∉ [':', ',', '\x7d']

theorem unclosed_nil : Unclosed [] := nofun

/-- White space is skipped or not by the first character alone. -/
theorem skipSpace_cons {c : Char} {text : List Char} (h : skipSpace (c :: text) = c :: text)
    (text' : List Char) : skipSpace (c :: text') = c :: text' := by
  rw [skipSpace, List.dropWhile_cons] at h ⊢
  split at h
  · have hle : (c :: text).length ≤ text.length := h ▸ (List.dropWhile_suffix _).length_le
    simp at hle
  · rename_i hc
    rw [if_neg hc]

namespace Torn

variable {rest : List Char}

/-- What stands behind the cut closes nothing. -/
theorem unclosed (h : Torn rest) : Unclosed rest := by
  rcases h with rfl | ⟨c, tail, rfl, -⟩
  · exact unclosed_nil
  · intro d hd
    cases hd
    decide

/-- Behind a quote that was taken for the end of a string, a letter comes next. -/
theorem unclosed_drop (h : Torn rest) : Unclosed (rest.drop 2) := by
  rcases h with rfl | ⟨c, tail, rfl, hc⟩
  · exact unclosed_nil
  · have hskip : skipSpace (c :: tail) = c :: tail := by
      apply List.dropWhile_cons_of_neg
      intro hspace
      simp only [Bool.or_eq_true, decide_eq_true_eq] at hspace
      rcases hspace with ((rfl | rfl) | rfl) | rfl <;> cases hc
    intro d hd
    rw [List.drop_succ_cons, List.drop_one, List.tail_cons, hskip] at hd
    cases hd
    intro hmem
    simp only [List.mem_cons, List.not_mem_nil, or_false] at hmem
    rcases hmem with rfl | rfl | rfl <;> cases hc

/-- A number stops there. -/
theorem stops (h : Torn rest) : Stops rest := by
  rcases h with rfl | ⟨c, tail, rfl, -⟩
  · nofun
  · exact stops_cons (by decide) _

/-- No space stands behind the cut. -/
theorem skipSpace (h : Torn rest) : skipSpace rest = rest := by
  rcases h with rfl | ⟨c, tail, rfl, -⟩ <;> rfl

end Torn

/-! ## Strings -/

/-- A string that is read to its end from here ends at the quote behind the cut. -/
def EndsAt (after text : List Char) : Prop := ∀ p, scan text = some p → p.2 = after

/-- An escape that is scanned in front keeps where the string ends. -/
theorem EndsAt.unicodeEscape {after text : List Char} (h : EndsAt after text) {n : ℕ}
    (hn : n < 0x10000) : EndsAt after (unicodeEscape n ++ text) := by
  intro p hp
  rw [scan_unicodeEscape hn, Option.map_eq_some_iff] at hp
  obtain ⟨q, hq, rfl⟩ := hp
  exact h q hq

/-- So does an escaped code point. -/
theorem EndsAt.escape {after text : List Char} (h : EndsAt after text) (c : CodePoint) :
    EndsAt after (c.escape ++ text) := by
  intro p hp
  rw [CodePoint.scan_escape, Option.map_eq_some_iff] at hp
  obtain ⟨q, hq, rfl⟩ := hp
  exact h q hq

/-- A brace is no hexadecimal digit. -/
theorem hex4_eq_none {a b c d : Char} (h : '\x7b' ∈ [a, b, c, d]) : hex4 a b c d = none := by
  have hbrace : hexVal '\x7b' = none := by decide
  simp only [List.mem_cons, List.not_mem_nil, or_false] at h
  rcases h with rfl | rfl | rfl | rfl
  · simp [hex4, hbrace]
  · simp [hex4, hbrace]
  · simp [hex4, hbrace]
  · simp [hex4, hbrace]

/-- A character is escaped by one that follows a backslash, by itself, or by one or two codes. -/
theorem escape_cases (c : Char) :
    (∃ d, escape c = ['\\', d]) ∨ escape c = [c] ∨
      (∃ n < 0x10000, escape c = unicodeEscape n) ∨
      ∃ high < 0x10000, ∃ low < 0x10000, escape c = unicodeEscape high ++ unicodeEscape low := by
  have hrange := toNat_range c
  generalize hescape : escape c = text
  rw [escape] at hescape
  split_ifs at hescape
  · exact .inl ⟨_, hescape.symm⟩
  · exact .inl ⟨_, hescape.symm⟩
  · exact .inl ⟨_, hescape.symm⟩
  · exact .inl ⟨_, hescape.symm⟩
  · exact .inl ⟨_, hescape.symm⟩
  · exact .inl ⟨_, hescape.symm⟩
  · exact .inl ⟨_, hescape.symm⟩
  · exact .inr (.inl hescape.symm)
  · rename_i hlt
    exact .inr (.inr (.inl ⟨_, hlt, hescape.symm⟩))
  · exact .inr (.inr (.inr ⟨_, by omega, _, by omega, hescape.symm⟩))

section

variable {rest : List Char} (hrest : Torn rest)
include hrest

/-- From the cut on, a string ends at the quote behind the brace. -/
theorem Torn.endsAt : EndsAt (rest.drop 2) rest := by
  rcases hrest with rfl | ⟨c, tail, rfl, -⟩
  · nofun
  · rintro p hp
    cases hp
    rfl

/-- Fewer than four digits are no escape, whatever comes behind them. -/
theorem scan_cut_unicodeEscape {w : List Char} (hw : w.length < 4) :
    scan ('\\' :: 'u' :: (w ++ rest)) = none := by
  have hnone (text : List Char) (h : ∀ a b c d more, text = a :: b :: c :: d :: more →
      hex4 a b c d = none) : scan ('\\' :: 'u' :: text) = none := by
    rcases text with _ | ⟨a, _ | ⟨b, _ | ⟨c, _ | ⟨d, more⟩⟩⟩⟩
    · rfl
    · rfl
    · rfl
    · rfl
    · rw [scan, h a b c d more rfl]
      rfl
  apply hnone
  intro a b c d more htext
  apply hex4_eq_none
  rcases hrest with rfl | ⟨e, tail, rfl, -⟩
  · have := congrArg List.length htext
    simp only [List.append_nil, List.length_cons] at this
    omega
  · rcases w with _ | ⟨x, _ | ⟨y, _ | ⟨z, _ | ⟨u, w⟩⟩⟩⟩
    · cases htext; simp
    · cases htext; simp
    · cases htext; simp
    · cases htext; simp
    · simp at hw
      omega

/-- So it does if the cut is inside an escape. -/
theorem endsAt_cut_unicodeEscape {n : ℕ} (hn : n < 0x10000) {w : List Char}
    (hw : w <+: unicodeEscape n) : EndsAt (rest.drop 2) (w ++ rest) := by
  have hescape : unicodeEscape n = '\\' :: 'u' :: Str.hexPad 4 n := rfl
  rw [hescape, List.prefix_cons_iff] at hw
  rcases hw with rfl | ⟨w, rfl, hw⟩
  · exact hrest.endsAt
  · rw [List.prefix_cons_iff] at hw
    rcases hw with rfl | ⟨w, rfl, hw⟩
    · -- a single backslash
      rcases hrest with rfl | ⟨c, tail, rfl, -⟩
      · nofun
      · nofun
    · by_cases hlen : w.length < 4
      · intro p hp
        rw [List.cons_append, List.cons_append, scan_cut_unicodeEscape hrest hlen] at hp
        cases hp
      · have hfour : (Str.hexPad 4 n).length = 4 := rfl
        have hfull : w = Str.hexPad 4 n := hw.eq_of_length_le (by omega)
        rw [hfull]
        exact hrest.endsAt.unicodeEscape hn

/-- So it does if the cut is inside an escaped code point. -/
theorem endsAt_cut_escape (c : CodePoint) {w : List Char} (hw : w <+: c.escape) :
    EndsAt (rest.drop 2) (w ++ rest) := by
  by_cases hfull : w = c.escape
  · rw [hfull]
    exact hrest.endsAt.escape c
  rw [CodePoint.escape] at hw hfull
  split at hw
  · rename_i hsurrogate
    have hc : c.val < 0x10000 := by
      simp only [CodePoint.IsHigh, CodePoint.IsLow] at hsurrogate
      omega
    exact endsAt_cut_unicodeEscape hrest hc hw
  rename_i hscalar
  rw [if_neg hscalar] at hfull
  -- short escapes, the character itself, one code unit or two of them
  rcases escape_cases (Char.ofNat c.val) with
    ⟨d, hd⟩ | hself | ⟨n, hn, hcode⟩ | ⟨high, hhigh, low, hlow, hcodes⟩
  · rw [hd] at hw hfull
    simp only [List.prefix_cons_iff, List.prefix_nil] at hw
    rcases hw with rfl | ⟨w, rfl, rfl | ⟨w, rfl, rfl⟩⟩
    · exact hrest.endsAt
    · rcases hrest with rfl | ⟨d, tail, rfl, -⟩
      · intro p hp
        cases hp
      · intro p hp
        cases hp
    · exact absurd rfl hfull
  · rw [hself] at hw hfull
    simp only [List.prefix_cons_iff, List.prefix_nil] at hw
    rcases hw with rfl | ⟨w, rfl, rfl⟩
    · exact hrest.endsAt
    · exact absurd rfl hfull
  · rw [hcode] at hw
    exact endsAt_cut_unicodeEscape hrest hn hw
  · rw [hcodes] at hw
    rcases prefix_append_iff.mp hw with hfirst | ⟨w, rfl, hsecond⟩
    · exact endsAt_cut_unicodeEscape hrest hhigh hfirst
    · -- the first code is whole, and a scan of it goes on behind it
      rw [List.append_assoc]
      exact (endsAt_cut_unicodeEscape hrest hlow hsecond).unicodeEscape hhigh

/-- A string that was cut ends at the quote behind the cut. -/
theorem endsAt_cut_string (s : PyStr) {w : List Char} (hw : w <+: s.flatMap CodePoint.escape) :
    EndsAt (rest.drop 2) (w ++ rest) := by
  induction s generalizing w with
  | nil =>
    rw [List.flatMap_nil, List.prefix_nil] at hw
    rw [hw]
    exact hrest.endsAt
  | cons c s ih =>
    rw [List.flatMap_cons, prefix_append_iff] at hw
    rcases hw with hw | ⟨w, rfl, hw⟩
    · exact endsAt_cut_escape hrest c hw
    · rw [List.append_assoc]
      exact (ih hw).escape c

end

end Json

namespace JsonValue

open Json

variable {F : Type} [JsonFloat F] {rest : List Char} (hrest : Torn rest)
include hrest

omit [JsonFloat F] in
/-- A string that is cut ends behind the cut, where nothing is closed. -/
theorem readString_cut {s : PyStr} {w : List Char} (hw : w <+: s.flatMap CodePoint.escape)
    {p : PyStr × List Char} (h : readString (w ++ rest) = some p) : Unclosed p.2 := by
  rw [readString, Option.map_eq_some_iff] at h
  obtain ⟨q, hq, rfl⟩ := h
  show Unclosed q.2
  rw [endsAt_cut_string hrest s hw q hq]
  exact hrest.unclosed_drop

/-! ## Values -/

/-- Characters of a number begin no other value. -/
theorem readOther_number {elements : List Char → Option (List (JsonValue F) × List Char)}
    {members : List Char → Option (List (PyStr × JsonValue F) × List Char)} {w : List Char}
    (hw : ∀ c ∈ w, numberChar c = true) (hne : w ≠ []) :
    readOther elements members (w ++ rest) = none := by
  obtain ⟨c, w, rfl⟩ := List.exists_cons_of_ne_nil hne
  obtain ⟨hc, hw⟩ := List.forall_mem_cons.mp hw
  -- the only name that begins like a number is `-Infinity`
  have hhead : (w ++ rest).head? ≠ some 'I' := by
    intro hI
    cases w with
    | nil =>
      rcases hrest with rfl | ⟨d, tail, rfl, -⟩ <;> cases hI
    | cons d w =>
      cases hI
      exact absurd (hw 'I' (List.mem_cons_self ..)) (by decide)
  have hfirst {d : Char} {text : List Char} (h : c :: (w ++ rest) = d :: text) :
      numberChar d = true := by
    cases h
    exact hc
  rw [List.cons_append]
  unfold readOther
  split
  -- eight branches ask for a first character that no number has
  iterate 8
    · rename_i h
      exact absurd (hfirst h) (by decide)
  · rename_i h
    rw [List.cons.injEq] at h
    rw [h.2] at hhead
    exact absurd rfl hhead
  · rfl

/-- The characters of a number are taken up to the cut. -/
theorem readValue_cut_number {w : List Char} (hw : ∀ c ∈ w, numberChar c = true) (hne : w ≠ [])
    {fuel : ℕ} {p : JsonValue F × List Char} (h : readValue fuel (w ++ rest) = some p) :
    p.2 = rest := by
  cases fuel with
  | zero => cases h
  | succ fuel =>
    rw [readValue_succ, readOther_number hrest hw hne, Option.or_none,
      readNumber_token hw hrest.stops] at h
    split_ifs at h
    · cases h
      rfl
    · cases h
      rfl

/-- A float that is no number has one of three names. -/
theorem readValue_cut_name {name w : List Char}
    (hname : name ∈ ["NaN".toList, "Infinity".toList, "-Infinity".toList]) (hw : w <+: name)
    (hne : w ≠ []) {fuel : ℕ} {p : JsonValue F × List Char}
    (h : readValue fuel (w ++ rest) = some p) : p.2 = rest := by
  cases fuel with
  | zero => cases h
  | succ fuel =>
    have hmem := (List.mem_inits w name).mpr hw
    simp only [List.mem_cons, List.not_mem_nil, or_false] at hname
    rw [readValue_succ] at h
    -- each of the names, cut behind each of its letters
    rcases hname with rfl | rfl | rfl
    · have hinits : "NaN".toList.inits = [[], ['N'], ['N', 'a'], ['N', 'a', 'N']] := rfl
      rw [hinits] at hmem
      simp only [List.mem_cons, List.not_mem_nil, or_false] at hmem
      rcases hmem with rfl | rfl | rfl | rfl
      · exact absurd rfl hne
      all_goals rcases hrest with rfl | ⟨c, tail, rfl, -⟩
      all_goals cases h <;> rfl
    · have hinits : "Infinity".toList.inits =
          [[], ['I'], ['I', 'n'], ['I', 'n', 'f'], ['I', 'n', 'f', 'i'], ['I', 'n', 'f', 'i', 'n'],
            ['I', 'n', 'f', 'i', 'n', 'i'], ['I', 'n', 'f', 'i', 'n', 'i', 't'],
            ['I', 'n', 'f', 'i', 'n', 'i', 't', 'y']] := rfl
      rw [hinits] at hmem
      simp only [List.mem_cons, List.not_mem_nil, or_false] at hmem
      rcases hmem with rfl | rfl | rfl | rfl | rfl | rfl | rfl | rfl | rfl
      · exact absurd rfl hne
      all_goals rcases hrest with rfl | ⟨c, tail, rfl, -⟩
      all_goals cases h <;> rfl
    · have hinits : "-Infinity".toList.inits = [[], ['-'], ['-', 'I'], ['-', 'I', 'n'],
          ['-', 'I', 'n', 'f'], ['-', 'I', 'n', 'f', 'i'], ['-', 'I', 'n', 'f', 'i', 'n'],
          ['-', 'I', 'n', 'f', 'i', 'n', 'i'], ['-', 'I', 'n', 'f', 'i', 'n', 'i', 't'],
          ['-', 'I', 'n', 'f', 'i', 'n', 'i', 't', 'y']] := rfl
      rw [hinits] at hmem
      simp only [List.mem_cons, List.not_mem_nil, or_false] at hmem
      rcases hmem with rfl | rfl | rfl | rfl | rfl | rfl | rfl | rfl | rfl | rfl
      · exact absurd rfl hne
      all_goals rcases hrest with rfl | ⟨c, tail, rfl, -⟩
      all_goals cases h <;> rfl

/-- A value that is cut is read to where nothing is closed. -/
theorem readValue_cut {v : JsonValue F} (hv : v.Plain) {w : List Char} (hw : w <+: v.write)
    (hne : w ≠ []) {fuel : ℕ} {p : JsonValue F × List Char}
    (h : readValue fuel (w ++ rest) = some p) : Unclosed p.2 := by
  cases v with
  | int n =>
    rw [readValue_cut_number hrest (fun c hc => numberChar_intText (hw.subset hc)) hne h]
    exact hrest.unclosed
  | float x =>
    rw [write] at hw
    rcases FloatText.isFloatText_repr x with hname | ⟨hchars, -⟩
    · rw [readValue_cut_name hrest hname hw hne h]
      exact hrest.unclosed
    · have hw' : ∀ c ∈ w, numberChar c = true :=
        fun c hc => List.all_eq_true.mp hchars c (hw.subset hc)
      rw [readValue_cut_number hrest hw' hne h]
      exact hrest.unclosed
  | str s =>
    rw [write, PyStr.quote, List.cons_append, List.prefix_cons_iff] at hw
    rcases hw with rfl | ⟨w, rfl, hw⟩
    · exact absurd rfl hne
    · cases fuel with
      | zero => cases h
      | succ fuel =>
        rw [List.cons_append, readValue_other fuel (by decide), readOther_quote,
          Option.map_eq_some_iff] at h
        obtain ⟨q, hq, rfl⟩ := h
        show Unclosed q.2
        -- cut inside the string, at its closing quote, or behind it
        rcases prefix_append_iff.mp hw with hcut | ⟨t, rfl, ht⟩
        · exact readString_cut hrest hcut hq
        · rw [List.prefix_cons_iff] at ht
          rcases ht with rfl | ⟨t, rfl, ht⟩
          · rw [List.append_nil] at hq
            exact readString_cut hrest (List.prefix_refl _) hq
          · cases List.prefix_nil.mp ht
            rw [List.append_assoc, List.singleton_append, readString_quoted] at hq
            cases hq
            exact hrest.unclosed
  | _ => exact hv.elim

/-! ## Members -/

/-- What stands behind the cut, read as a value, leaves nothing. -/
def Whole (F : Type) [JsonFloat F] (rest : List Char) : Prop :=
  ∀ fuel p, 2 * rest.length ≤ fuel → readValue (F := F) fuel rest = some p → p.2 = []

omit hrest in
/-- Members do not go on where nothing is closed. -/
theorem match_unclosed {α : Type} {after : List Char} (h : Unclosed after)
    (f g : List Char → Option α) :
    (match Json.skipSpace after with
      | '\x7d' :: rest => f rest
      | ',' :: rest => g rest
      | _ => none) = none := by
  split
  · rename_i heq
    exact absurd (h '\x7d' (by rw [heq]; rfl)) (by decide)
  · rename_i heq
    exact absurd (h ',' (by rw [heq]; rfl)) (by decide)
  · rfl

omit hrest in
/-- A value begins where it is written, also where it is cut. -/
theorem skipSpace_cut {v : JsonValue F} (hv : v.Plain) {w : List Char} (hw : w <+: v.write)
    (hne : w ≠ []) (text : List Char) : Json.skipSpace (w ++ text) = w ++ text := by
  have hback := (loaded_reloaded hv).readsBack.read (2 * v.reloaded.write.length) [] (le_refl _) nofun
  rw [List.append_nil, write_reloaded] at hback
  have hskip := skipSpace_of_readValue hback
  obtain ⟨c, w, rfl⟩ := List.exists_cons_of_ne_nil hne
  obtain ⟨more, hmore⟩ := hw
  rw [← hmore] at hskip
  exact skipSpace_cons hskip (w ++ text)

/-- No members stand behind the cut. -/
theorem readMembers_torn (fuel : ℕ) :
    readMembers fuel rest = (none : Option (List (PyStr × JsonValue F) × List Char)) := by
  cases fuel with
  | zero => rfl
  | succ fuel => rcases hrest with rfl | ⟨c, tail, rfl, -⟩ <;> rfl

omit hrest in
/-- A key has no value where nothing is closed. -/
theorem match_no_colon {α : Type} {after : List Char} (h : Unclosed after)
    (f : List Char → Option α) :
    (match Json.skipSpace after with | ':' :: rest => f rest | _ => none) = none := by
  split
  · rename_i heq
    exact absurd (h ':' (by rw [heq]; rfl)) (by decide)
  · rfl

/-- What is read of a value that was cut behind the colon leaves nothing closed. -/
theorem readValue_cut_colon (hwhole : Whole F rest) {v : JsonValue F} (hv : v.Plain)
    {u : List Char} (hu : u <+: ' ' :: v.write) {fuel : ℕ} (hfuel : 2 * rest.length ≤ fuel)
    {value : JsonValue F} {after : List Char}
    (h : readValue fuel (Json.skipSpace (u ++ rest)) = some (value, after)) : Unclosed after := by
  have hnovalue (h : readValue fuel rest = some (value, after)) : Unclosed after := by
    have hnil : after = [] := hwhole fuel _ hfuel h
    rw [hnil]
    exact unclosed_nil
  rw [List.prefix_cons_iff] at hu
  rcases hu with rfl | ⟨x, rfl, hx⟩
  · rw [List.nil_append, hrest.skipSpace] at h
    exact hnovalue h
  · by_cases hne : x = []
    · rw [hne, List.singleton_append] at h
      change readValue fuel (Json.skipSpace rest) = _ at h
      rw [hrest.skipSpace] at h
      exact hnovalue h
    · rw [List.cons_append] at h
      change readValue fuel (Json.skipSpace (x ++ rest)) = _ at h
      rw [skipSpace_cut hv hx hne] at h
      exact readValue_cut hrest hv hx hne h

/-- An item that was cut is not read. -/
theorem readMembers_cut_item (hwhole : Whole F rest) {k : PyStr} {v : JsonValue F} (hv : v.Plain)
    {w : List Char} (hw : w <+: k.quote ++ ':' :: ' ' :: v.write) {fuel : ℕ}
    (hfuel : 2 * (w ++ rest).length ≤ fuel) :
    readMembers fuel (w ++ rest) = (none : Option (List (PyStr × JsonValue F) × List Char)) := by
  have hquote : k.quote ++ ':' :: ' ' :: v.write =
      '"' :: (k.flatMap CodePoint.escape ++ '"' :: ':' :: ' ' :: v.write) := by
    simp [PyStr.quote]
  rw [hquote, List.prefix_cons_iff] at hw
  rcases hw with rfl | ⟨w, rfl, hw⟩
  · exact readMembers_torn hrest fuel
  obtain ⟨fuel, rfl⟩ : ∃ n, fuel = n + 1 := ⟨fuel - 1, by simp at hfuel; omega⟩
  simp only [List.cons_append, List.length_cons, List.length_append] at hfuel
  rw [List.cons_append, readMembers_quote, Option.bind_eq_bind, Option.bind_eq_none_iff]
  rintro ⟨key, after⟩ hkey
  dsimp only
  -- behind the key there is no colon, or the colon was written and the value is not read
  rcases prefix_append_iff.mp hw with hcut | ⟨t, rfl, ht⟩
  · exact match_no_colon (readString_cut hrest hcut hkey) _
  rw [List.prefix_cons_iff] at ht
  rcases ht with rfl | ⟨t, rfl, ht⟩
  · rw [List.append_nil] at hkey
    exact match_no_colon (readString_cut hrest (List.prefix_refl _) hkey) _
  rw [List.append_assoc, List.cons_append, readString_quoted] at hkey
  cases hkey
  rw [List.prefix_cons_iff] at ht
  rcases ht with rfl | ⟨u, rfl, hu⟩
  · exact match_no_colon hrest.unclosed _
  show (readValue fuel (Json.skipSpace (u ++ rest)) >>= _) = none
  rw [Option.bind_eq_bind, Option.bind_eq_none_iff]
  rintro ⟨value, after⟩ hvalue
  exact match_unclosed (readValue_cut_colon hrest hwhole hv hu (by omega) hvalue) _ _

/-- What is left of some items begins with a quote, and what comes behind the cut with a brace. -/
theorem head?_items {items : List (PyStr × JsonValue F)} {w : List Char}
    (hw : w <+: commas (writeItems items)) : ∀ c ∈ (w ++ rest).head?, c = '"' ∨ c = '\x7b' := by
  intro c hc
  cases w with
  | nil =>
    rcases hrest with rfl | ⟨d, tail, rfl, -⟩
    · cases hc
    · cases hc
      exact .inr rfl
  | cons d w =>
    cases hc
    have hquote : ∀ c ∈ (commas (writeItems items)).head?, c = '"' := by
      intro c hc
      cases items with
      | nil => cases hc
      | cons kv items => cases items <;> cases hc <;> rfl
    obtain ⟨more, hmore⟩ := hw
    rw [← hmore] at hquote
    exact .inl (hquote c rfl)

/-- No space stands in front of members that are cut. -/
theorem skipSpace_items {items : List (PyStr × JsonValue F)} {w : List Char}
    (hw : w <+: commas (writeItems items)) : Json.skipSpace (w ++ rest) = w ++ rest := by
  have hhead := head?_items hrest hw
  generalize w ++ rest = text at hhead
  cases text with
  | nil => rfl
  | cons c text => rcases hhead c rfl with rfl | rfl <;> rfl

/-- Items that were cut are not read. -/
theorem readMembers_cut (hwhole : Whole F rest) {items : List (PyStr × JsonValue F)}
    (hitems : ∀ kv ∈ items, kv.1.Paired ∧ kv.2.Plain) {w : List Char}
    (hw : w <+: commas (writeItems items)) {fuel : ℕ} (hfuel : 2 * (w ++ rest).length ≤ fuel) :
    readMembers fuel (w ++ rest) = (none : Option (List (PyStr × JsonValue F) × List Char)) := by
  induction items generalizing w fuel with
  | nil =>
    cases List.prefix_nil.mp hw
    exact readMembers_torn hrest fuel
  | cons kv items ih =>
    obtain ⟨k, v⟩ := kv
    obtain ⟨⟨hk, hv⟩, hitems⟩ := List.forall_mem_cons.mp hitems
    cases items with
    | nil => exact readMembers_cut_item hrest hwhole hv hw hfuel
    | cons kv items =>
      have hcommas : commas (writeItems ((k, v) :: kv :: items)) =
          (k.quote ++ ':' :: ' ' :: v.write) ++ ',' :: ' ' ::
            commas (writeItems (kv :: items)) := by
        obtain ⟨k', v'⟩ := kv
        rfl
      rw [hcommas] at hw
      -- cut inside the first member, behind it, or behind the comma
      rcases prefix_append_iff.mp hw with hcut | ⟨t, rfl, ht⟩
      · exact readMembers_cut_item hrest hwhole hv hcut hfuel
      rw [List.prefix_cons_iff] at ht
      rcases ht with rfl | ⟨t, rfl, ht⟩
      · rw [List.append_nil] at hfuel ⊢
        exact readMembers_cut_item hrest hwhole hv (List.prefix_refl _) hfuel
      obtain ⟨fuel, rfl⟩ : ∃ n, fuel = n + 1 := ⟨fuel - 1, by simp at hfuel; omega⟩
      simp only [List.length_append, List.length_cons] at hfuel
      have hitem := readMembers_item hk (loaded_reloaded hv).readsBack
        (by rw [write_reloaded]; omega : 2 * v.reloaded.write.length ≤ fuel)
        (stops_cons (c := ',') (by decide) (t ++ rest))
      rw [write_reloaded] at hitem
      rw [List.append_assoc, List.cons_append, hitem]
      show (readMembers fuel (Json.skipSpace (t ++ rest)) >>= _) = none
      have hnone : readMembers fuel (Json.skipSpace (t ++ rest)) =
          (none : Option (List (PyStr × JsonValue F) × List Char)) := by
        rw [List.prefix_cons_iff] at ht
        rcases ht with rfl | ⟨x, rfl, hx⟩
        · rw [List.nil_append, hrest.skipSpace]
          exact readMembers_torn hrest fuel
        · have hskip : Json.skipSpace (' ' :: x ++ rest) = x ++ rest := by
            exact skipSpace_items hrest hx
          rw [hskip]
          exact ih hitems hx (by simp only [List.length_append, List.length_cons] at hfuel ⊢; omega)
      rw [hnone]
      rfl

/-- A dictionary that was cut is not read. -/
theorem loads_cut (hwhole : Whole F rest) {items : List (PyStr × JsonValue F)}
    (hitems : ∀ kv ∈ items, kv.1.Paired ∧ kv.2.Plain) {w : List Char}
    (hw : w <+: '\x7b' :: commas (writeItems items)) (hne : w ≠ []) :
    ∃ err, loads (F := F) (w ++ rest) = .error err := by
  rw [List.prefix_cons_iff] at hw
  rcases hw with rfl | ⟨w, rfl, hw⟩
  · exact absurd rfl hne
  have hnone : readValue (F := F) (2 * ('\x7b' :: w ++ rest).length + 1)
      (Json.skipSpace ('\x7b' :: w ++ rest)) = none := by
    show readValue (F := F) _ ('\x7b' :: (w ++ rest)) = none
    rw [readValue_other _ (by decide), readOther_dict, skipSpace_items hrest hw]
    split
    · rename_i tail hclosed
      have hhead := head?_items hrest hw '\x7d' (by rw [hclosed]; rfl)
      rcases hhead with hhead | hhead <;> cases hhead
    · have hfuel : 2 * (w ++ rest).length ≤ 2 * ('\x7b' :: w ++ rest).length := by
        simp only [List.cons_append, List.length_cons]
        omega
      rw [readMembers_cut hrest hwhole hitems hw hfuel, Option.map_none]
  exact ⟨.other "JSONDecodeError" "Expecting value", by rw [loads, hnone]⟩

end JsonValue

namespace AuditEntry

open Json (Torn)

variable {F : Type} [JsonFloat F] {e : AuditEntry F}

/-- The line of an entry may stand behind a cut. -/
theorem torn_toJsonl (e : AuditEntry F) : Torn e.toJsonl := .inr ⟨'e', _, rfl, by decide⟩

/-- So may nothing. -/
theorem whole_nil : JsonValue.Whole F [] := by
  intro fuel p hfuel h
  cases fuel with
  | zero => cases h
  | succ fuel => cases h

/-- The line of an entry is read to its end. -/
theorem whole_toJsonl (h : e.Loaded) : JsonValue.Whole F e.toJsonl := by
  intro fuel p hfuel hp
  have hread := (loaded_asdict h).readsBack.read fuel [] hfuel nofun
  rw [List.append_nil] at hread
  rw [toJsonl, JsonValue.dumps, hread] at hp
  cases hp
  rfl

/-- More behind the line of an entry is extra data. -/
theorem loads_append (hplain : ∀ v ∈ e.values, v.Plain) {rest : List Char} (hrest : Torn rest)
    (hne : rest ≠ []) : ∃ err, JsonValue.loads (F := F) (e.toJsonl ++ rest) = .error err := by
  have hread := (loaded_asdict (loaded_reloaded hplain)).readsBack.read
    (2 * (e.toJsonl ++ rest).length + 1) rest
    (by
      rw [← JsonValue.dumps, ← toJsonl, toJsonl_reloaded, List.length_append]
      omega) hrest.stops
  rw [← JsonValue.dumps, ← toJsonl, toJsonl_reloaded] at hread
  have hempty : rest.isEmpty = false := by simpa using hne
  rw [JsonValue.loads, JsonValue.skipSpace_of_readValue hread, hread]
  simp only [hrest.skipSpace, hempty]
  exact ⟨_, rfl⟩

/-- A line that begins with part of that of an entry, or with all of it and goes on, is no entry. -/
theorem fromJsonl_cut (hplain : ∀ v ∈ e.values, v.Plain) {w rest : List Char} (hrest : Torn rest)
    (hwhole : JsonValue.Whole F rest) (hw : w <+: e.toJsonl) (hne : w ≠ [])
    (hcut : w ≠ e.toJsonl ∨ rest ≠ []) :
    ∃ err, fromJsonl (F := F) (w ++ rest) = .error err := by
  have hitems : ∀ kv ∈ e.asdict, kv.1.Paired ∧ kv.2.Plain :=
    fun kv hkv => ⟨(mem_asdict hkv).1, hplain _ (mem_asdict hkv).2⟩
  have hloads : ∃ err, JsonValue.loads (F := F) (w ++ rest) = .error err := by
    rw [toJsonl, JsonValue.dumps, JsonValue.write, prefix_append_iff] at hw
    rcases hw with hw | ⟨t, rfl, ht⟩
    · exact JsonValue.loads_cut hrest hwhole hitems hw hne
    rw [List.prefix_cons_iff] at ht
    rcases ht with rfl | ⟨t, rfl, ht⟩
    · rw [List.append_nil]
      exact JsonValue.loads_cut hrest hwhole hitems (List.prefix_refl _) (List.cons_ne_nil _ _)
    · -- the line is whole, and more comes behind it
      cases List.prefix_nil.mp ht
      have hline : '\x7b' :: Json.commas (JsonValue.writeItems e.asdict) ++ ['\x7d'] =
          e.toJsonl := by rw [toJsonl, JsonValue.dumps, JsonValue.write]
      rw [hline] at hcut ⊢
      exact loads_append hplain hrest (hcut.resolve_left (absurd rfl))
  obtain ⟨err, herr⟩ := hloads
  exact ⟨err, by rw [fromJsonl, herr]; rfl⟩

end AuditEntry

end Chen
