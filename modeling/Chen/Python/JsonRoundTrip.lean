import Chen.Python.JsonText
import Mathlib.Data.List.Induction
import Mathlib.Data.List.TakeWhile

/-!
# JSON values, written and read

What `json.dumps` writes, `json.loads` reads back, provided that the strings spell no surrogate
pair as two code points. What `json.loads` returns has no such strings, so that on its results
`json.dumps` is injective.
-/

namespace Chen

namespace JsonValue

open Json

variable {F : Type} [FloatText F]

/-- A value as `json.loads` returns it. -/
inductive Loaded : JsonValue F → Prop where
  | null : Loaded null
  | bool (b : Bool) : Loaded (bool b)
  | int (n : ℤ) : Loaded (int n)
  | float (x : F) : Loaded (float x)
  | str {s : PyStr} (h : s.Paired) : Loaded (str s)
  | list {xs : List (JsonValue F)} (h : ∀ x ∈ xs, Loaded x) : Loaded (list xs)
  | dict {items : List (PyStr × JsonValue F)} (hsorted : (items.map Prod.fst).Pairwise (· < ·))
      (hkeys : ∀ kv ∈ items, kv.1.Paired) (hvalues : ∀ kv ∈ items, Loaded kv.2) :
      Loaded (dict items)

/-- A list is written item by item. -/
theorem writeList_eq_map (xs : List (JsonValue F)) : writeList xs = xs.map write := by
  induction xs with
  | nil => rfl
  | cons x xs ih => rw [writeList_cons, ih, List.map_cons]

/-- A dictionary is written item by item. -/
theorem writeItems_eq_map (items : List (PyStr × JsonValue F)) :
    writeItems items = items.map fun kv => kv.1.quote ++ ':' :: ' ' :: write kv.2 := by
  induction items with
  | nil => rfl
  | cons kv items ih => rw [writeItems_cons, ih, List.map_cons]

/-! ## Dictionaries -/

/-- A key beyond all others goes to the end. -/
theorem insertKey_of_lt {υ : Type} {key : PyStr} (value : υ) {items : List (PyStr × υ)}
    (h : ∀ kv ∈ items, kv.1 < key) : insertKey key value items = items ++ [(key, value)] := by
  induction items with
  | nil => rfl
  | cons kv items ih =>
    have hkv : kv.1 < key := h kv (List.mem_cons_self ..)
    rw [insertKey, if_neg (lt_asymm hkv), if_neg hkv.ne',
      ih fun kv' hkv' => h kv' (List.mem_cons_of_mem _ hkv'), List.cons_append]

/-- Items in the order of their keys are a dictionary as they are. -/
theorem ofPairs_of_sorted {υ : Type} {items : List (PyStr × υ)}
    (h : (items.map Prod.fst).Pairwise (· < ·)) : ofPairs items = items := by
  induction items using List.reverseRecOn with
  | nil => rfl
  | append_singleton items kv ih =>
    rw [List.map_append, List.pairwise_append] at h
    have hbefore := ih h.1
    rw [ofPairs] at hbefore
    rw [ofPairs, List.foldl_append, hbefore, List.foldl_cons, List.foldl_nil]
    apply insertKey_of_lt
    intro kv' hkv'
    exact h.2.2 kv'.1 (List.mem_map_of_mem hkv') kv.1 (List.mem_singleton.mpr rfl)

/-- The items after a key was inserted: the new one, and those that were there. -/
theorem mem_insertKey {υ : Type} {key : PyStr} {value : υ} {items : List (PyStr × υ)}
    {kv : PyStr × υ} (h : kv ∈ insertKey key value items) : kv = (key, value) ∨ kv ∈ items := by
  induction items with
  | nil => exact .inl (List.mem_singleton.mp h)
  | cons kv' items ih =>
    rw [insertKey] at h
    split at h
    · exact List.mem_cons.mp h
    · split at h
      · rcases List.mem_cons.mp h with h | h
        · exact .inl h
        · exact .inr (List.mem_cons_of_mem _ h)
      · rcases List.mem_cons.mp h with h | h
        · exact .inr (h ▸ List.mem_cons_self ..)
        · exact (ih h).imp_right (List.mem_cons_of_mem _)

/-- Inserting a key keeps the order. -/
theorem sorted_insertKey {υ : Type} (key : PyStr) (value : υ) {items : List (PyStr × υ)}
    (h : (items.map Prod.fst).Pairwise (· < ·)) :
    ((insertKey key value items).map Prod.fst).Pairwise (· < ·) := by
  induction items with
  | nil => exact List.pairwise_singleton _ _
  | cons kv items ih =>
    obtain ⟨hkv, hitems⟩ := List.pairwise_cons.mp h
    rw [insertKey]
    split
    · rename_i hlt
      refine List.pairwise_cons.mpr ⟨?_, h⟩
      intro k hk
      rcases List.mem_cons.mp hk with rfl | hk
      · exact hlt
      · exact hlt.trans (hkv k hk)
    · split
      · rename_i heq
        rw [← heq] at hkv
        exact List.pairwise_cons.mpr ⟨hkv, hitems⟩
      · rename_i hnlt hne
        -- the key goes further down, behind a smaller one
        refine List.pairwise_cons.mpr ⟨?_, ih hitems⟩
        intro k hk
        obtain ⟨kv', hkv', rfl⟩ := List.mem_map.mp hk
        rcases mem_insertKey hkv' with rfl | hmem
        · exact lt_of_le_of_ne (not_lt.mp hnlt) (Ne.symm hne)
        · exact hkv _ (List.mem_map_of_mem hmem)

/-- The last pair is inserted last. -/
theorem ofPairs_append_singleton {υ : Type} (pairs : List (PyStr × υ)) (kv : PyStr × υ) :
    ofPairs (pairs ++ [kv]) = insertKey kv.1 kv.2 (ofPairs pairs) := by
  rw [ofPairs, List.foldl_append]
  rfl

/-- The keys of a dictionary increase. -/
theorem sorted_ofPairs {υ : Type} (pairs : List (PyStr × υ)) :
    ((ofPairs pairs).map Prod.fst).Pairwise (· < ·) := by
  induction pairs using List.reverseRecOn with
  | nil => exact .nil
  | append_singleton pairs kv ih =>
    rw [ofPairs_append_singleton]
    exact sorted_insertKey kv.1 kv.2 ih

/-- A dictionary has none but the pairs it was made of. -/
theorem mem_of_mem_ofPairs {υ : Type} {pairs : List (PyStr × υ)} {kv : PyStr × υ}
    (h : kv ∈ ofPairs pairs) : kv ∈ pairs := by
  induction pairs using List.reverseRecOn with
  | nil => cases h
  | append_singleton pairs kv' ih =>
    rw [ofPairs_append_singleton] at h
    rcases mem_insertKey h with rfl | h
    · exact List.mem_append_right _ (List.mem_singleton.mpr rfl)
    · exact List.mem_append_left _ (ih h)

/-! ## Written values read back -/

/-- A quoted string is read back, with its surrogate pairs joined. -/
theorem readString_quoted (s : PyStr) (rest : List Char) :
    readString (s.flatMap CodePoint.escape ++ '"' :: rest) = some (s.joinPairs, rest) := by
  rw [readString, PyStr.scan_escaped, Option.map_some, PyStr.joinPairs_flatMap_units]

/-- What does not begin with a character of a number is no number. -/
theorem readNumber_cons {c : Char} (h : numberChar c = false) (rest : List Char) :
    readNumber (c :: rest) = (none : Option (JsonValue F × List Char)) := by
  have htoken : (c :: rest).takeWhile numberChar = [] := by simp [h]
  rw [readNumber, htoken]
  rfl

/-- A token that is a number is taken whole. -/
theorem readNumber_token {token rest : List Char} (h : ∀ c ∈ token, numberChar c = true)
    (hrest : Stops rest) :
    readNumber (token ++ rest) =
      if isFloat token then some (float (FloatText.ofText token : F), rest)
      else if isInt token then some (int (intOfText token), rest)
      else none := by
  obtain ⟨htake, hdrop⟩ := takeWhile_append_stop h hrest
  rw [readNumber, htake, hdrop]

/-- An integer is read back in front of what cannot belong to it. -/
theorem readNumber_int (n : ℤ) {rest : List Char} (h : Stops rest) :
    readNumber (intText n ++ rest) = some ((int n : JsonValue F), rest) := by
  rw [readNumber_token (fun c => numberChar_intText) h, isFloat_intText, isInt_intText,
    intOfText_intText]
  rfl

/-- The constant that begins with a sign is no number. -/
theorem readNumber_minus_infinity (rest : List Char) :
    readNumber ("-Infinity".toList ++ rest) = (none : Option (JsonValue F × List Char)) := by
  have hstops : Stops ("Infinity".toList ++ rest) := stops_cons (by decide) _
  have hminus : ∀ c ∈ ['-'], numberChar c = true := List.all_eq_true.mp (by decide)
  show readNumber (['-'] ++ ("Infinity".toList ++ rest)) = _
  rw [readNumber_token hminus hstops]
  rfl

theorem readValue_succ (fuel : ℕ) (text : List Char) :
    readValue (F := F) (fuel + 1) text =
      (readNumber text).or (readOther (readElements fuel) (readMembers fuel) text) := rfl

/-- An element is followed by a comma or by the end of its list. -/
theorem readElements_succ (fuel : ℕ) (text : List Char) :
    readElements (F := F) (fuel + 1) text = (do
      let (x, after) ← readValue fuel text
      match skipSpace after with
      | ']' :: rest => pure ([x], rest)
      | ',' :: rest => do
        let (xs, rest) ← readElements fuel (skipSpace rest)
        pure (x :: xs, rest)
      | _ => none) := rfl

/-- A member has a key, a colon and a value. -/
theorem readMembers_quote (fuel : ℕ) (body : List Char) :
    readMembers (F := F) (fuel + 1) ('"' :: body) = (do
      let (k, after) ← readString body
      match skipSpace after with
      | ':' :: rest => do
        let (v, after) ← readValue fuel (skipSpace rest)
        match skipSpace after with
        | '\x7d' :: rest => pure ([(k, v)], rest)
        | ',' :: rest => do
          let (items, rest) ← readMembers fuel (skipSpace rest)
          pure ((k, v) :: items, rest)
        | _ => none
      | _ => none) := rfl

section Other

variable (elements : List Char → Option (List (JsonValue F) × List Char))
  (members : List Char → Option (List (PyStr × JsonValue F) × List Char))

theorem readOther_quote (body : List Char) :
    readOther elements members ('"' :: body) = (readString body).map fun p => (str p.1, p.2) := rfl

/-- A bracket begins a list. -/
theorem readOther_list (inside : List Char) :
    readOther elements members ('[' :: inside) =
      match skipSpace inside with
      | ']' :: rest => some (list [], rest)
      | items => (elements items).map fun p => (list p.1, p.2) := rfl

/-- A brace begins a dictionary. -/
theorem readOther_dict (inside : List Char) :
    readOther elements members ('\x7b' :: inside) =
      match skipSpace inside with
      | '\x7d' :: rest => some (dict [], rest)
      | items => (members items).map fun p => (dict (ofPairs p.1), p.2) := rfl

end Other

/-- The value is read from its text, with enough fuel and with no number going on behind it. -/
structure ReadsBack (v : JsonValue F) : Prop where
  read : ∀ fuel rest, 2 * v.write.length ≤ fuel → Stops rest →
    readValue fuel (v.write ++ rest) = some (v, rest)

/-- A number in front is the value. -/
theorem readValue_number {fuel : ℕ} {text : List Char} {p : JsonValue F × List Char}
    (h : readNumber text = some p) : readValue (fuel + 1) text = some p := by
  rw [readValue_succ, h, Option.some_or]

/-- A value that begins like no number is none. -/
theorem readValue_other (fuel : ℕ) {c : Char} (h : numberChar c = false) (text : List Char) :
    readValue (fuel + 1) (c :: text) =
      readOther (F := F) (readElements fuel) (readMembers fuel) (c :: text) := by
  rw [readValue_succ, readNumber_cons h, Option.none_or]

/-! ## One value -/

/-- Floats are read back. -/
theorem readsBack_float (x : F) : ReadsBack (float x) := by
  constructor
  intro fuel rest hfuel hrest
  rw [write_float] at hfuel ⊢
  have hread : FloatText.ofText (FloatText.repr x) = x := FloatText.ofText_repr x
  have hlen : 0 < (FloatText.repr x).length := by
    apply List.length_pos_of_ne_nil
    intro hnil
    rcases FloatText.isFloatText_repr x with hname | ⟨-, hfloat⟩
    · rw [hnil] at hname
      revert hname
      decide
    · rw [hnil] at hfloat
      cases hfloat
  obtain ⟨fuel, rfl⟩ : ∃ n, fuel = n + 1 := ⟨fuel - 1, by omega⟩
  -- one of the three names, or a number
  rcases FloatText.isFloatText_repr x with hname | ⟨hchars, hfloat⟩
  · conv_rhs => rw [← hread]
    simp only [List.mem_cons, List.not_mem_nil, or_false] at hname
    rcases hname with h | h | h
    · rw [h]
      exact readValue_other fuel (c := 'N') (by decide) _
    · rw [h]
      exact readValue_other fuel (c := 'I') (by decide) _
    · rw [h, readValue_succ, readNumber_minus_infinity]
      rfl
  · apply readValue_number
    rw [readNumber_token (List.all_eq_true.mp hchars) hrest, if_pos hfloat, hread]

/-- Integers are read back. -/
theorem readsBack_int (n : ℤ) : ReadsBack (int n : JsonValue F) := by
  constructor
  intro fuel rest hfuel hrest
  rw [write_int] at hfuel ⊢
  have hlen : 0 < (intText n).length := by
    apply List.length_pos_of_ne_nil
    intro hnil
    have hint := isInt_intText n
    rw [hnil] at hint
    cases hint
  obtain ⟨fuel, rfl⟩ : ∃ n, fuel = n + 1 := ⟨fuel - 1, by omega⟩
  exact readValue_number (readNumber_int n hrest)

/-- `null` is read back. -/
theorem readsBack_null : ReadsBack (null : JsonValue F) := by
  constructor
  intro fuel rest hfuel hrest
  obtain ⟨fuel, rfl⟩ : ∃ n, fuel = n + 1 := ⟨fuel - 1, by simp [write_null] at hfuel; omega⟩
  exact readValue_other fuel (c := 'n') (by decide) _

/-- Booleans are read back. -/
theorem readsBack_bool (b : Bool) : ReadsBack (bool b : JsonValue F) := by
  constructor
  intro fuel rest hfuel hrest
  cases b with
  | true =>
    obtain ⟨fuel, rfl⟩ : ∃ n, fuel = n + 1 := ⟨fuel - 1, by simp [write_bool] at hfuel; omega⟩
    exact readValue_other fuel (c := 't') (by decide) _
  | false =>
    obtain ⟨fuel, rfl⟩ : ∃ n, fuel = n + 1 := ⟨fuel - 1, by simp [write_bool] at hfuel; omega⟩
    exact readValue_other fuel (c := 'f') (by decide) _

/-- Strings are read back, if they have no surrogate pair that would be joined. -/
theorem readsBack_str {s : PyStr} (h : s.Paired) : ReadsBack (str s : JsonValue F) := by
  constructor
  intro fuel rest hfuel hrest
  rw [write_str, PyStr.quote] at hfuel ⊢
  obtain ⟨fuel, rfl⟩ : ∃ n, fuel = n + 1 :=
    ⟨fuel - 1, by simp only [List.cons_append, List.length_cons] at hfuel; omega⟩
  rw [List.cons_append, List.cons_append, List.append_assoc, readValue_other fuel (by decide),
    readOther_quote, List.singleton_append, readString_quoted, PyStr.joinPairs_of_paired h,
    Option.map_some]

/-! ## Lists and dictionaries -/

/-- A value does not begin with white space or with a closing bracket. -/
theorem readValue_no_value {c : Char} (h : c ∈ [' ', '\t', '\n', '\r', ']']) (fuel : ℕ)
    (rest : List Char) :
    readValue fuel (c :: rest) = (none : Option (JsonValue F × List Char)) := by
  cases fuel with
  | zero => rfl
  | succ fuel =>
    have hnumber : numberChar c = false := by
      simp only [List.mem_cons, List.not_mem_nil, or_false] at h
      rcases h with rfl | rfl | rfl | rfl | rfl <;> decide
    rw [readValue_other fuel hnumber]
    simp only [List.mem_cons, List.not_mem_nil, or_false] at h
    rcases h with rfl | rfl | rfl | rfl | rfl <;> rfl

/-- White space ends where a value begins. -/
theorem skipSpace_of_readValue {fuel : ℕ} {text : List Char} {p : JsonValue F × List Char}
    (h : readValue fuel text = some p) : skipSpace text = text := by
  cases text with
  | nil => rfl
  | cons c text =>
    apply List.dropWhile_cons_of_neg
    intro hspace
    have hmem : c ∈ [' ', '\t', '\n', '\r', ']'] := by
      simp only [Bool.or_eq_true, decide_eq_true_eq] at hspace
      simp only [List.mem_cons]
      tauto
    rw [readValue_no_value hmem] at h
    cases h

/-- The first text of several, and what stands behind it. -/
theorem commas_cons_cons (x y : List Char) (ys : List (List Char)) (rest : List Char) :
    commas (x :: y :: ys) ++ rest = x ++ ',' :: ' ' :: (commas (y :: ys) ++ rest) := by
  simp [commas]

/-- Members begin with a value, hence neither with white space nor with a bracket. -/
theorem readValue_of_readElements {fuel : ℕ} {text : List Char}
    {p : List (JsonValue F) × List Char} (h : readElements fuel text = some p) :
    ∃ n q, readValue n text = some (q : JsonValue F × List Char) := by
  cases fuel with
  | zero => cases h
  | succ fuel =>
    rw [readElements_succ] at h
    obtain ⟨q, hq, -⟩ := Option.bind_eq_some_iff.mp h
    exact ⟨fuel, q, hq⟩

/-- The elements of a list are read back, if each of them is. -/
theorem readElements_write {x : JsonValue F} {xs : List (JsonValue F)}
    (h : ∀ y ∈ x :: xs, ReadsBack y) (rest : List Char) {fuel : ℕ}
    (hfuel : 2 * (commas ((x :: xs).map write)).length + 1 ≤ fuel) :
    readElements fuel (commas ((x :: xs).map write) ++ ']' :: rest) = some (x :: xs, rest) := by
  induction xs generalizing x fuel with
  | nil =>
    obtain ⟨fuel, rfl⟩ : ∃ n, fuel = n + 1 := ⟨fuel - 1, by omega⟩
    have hx := (h x (List.mem_cons_self ..)).read fuel (']' :: rest)
      (by simpa [commas] using hfuel) (stops_cons (by decide) _)
    rw [List.map_singleton, commas, readElements_succ, hx]
    rfl
  | cons y ys ih =>
    obtain ⟨fuel, rfl⟩ : ∃ n, fuel = n + 1 := ⟨fuel - 1, by omega⟩
    have hlen : (commas ((x :: y :: ys).map write)).length =
        x.write.length + 2 + (commas ((y :: ys).map write)).length := by
      simp only [List.map_cons, commas, List.length_append, List.length_cons]
      omega
    have hx := (h x (List.mem_cons_self ..)).read fuel
      (',' :: ' ' :: (commas ((y :: ys).map write) ++ ']' :: rest)) (by omega)
      (stops_cons (by decide) _)
    have hys : readElements fuel (commas ((y :: ys).map write) ++ ']' :: rest) =
        some (y :: ys, rest) := ih (fun z hz => h z (List.mem_cons_of_mem _ hz)) (by omega)
    -- A value stands behind the comma, so that no white space is skipped but the one written.
    obtain ⟨n, q, hy⟩ := readValue_of_readElements hys
    rw [List.map_cons, List.map_cons, commas_cons_cons, ← List.map_cons, readElements_succ, hx]
    show (readElements fuel (skipSpace (commas ((y :: ys).map write) ++ ']' :: rest)) >>= _) = _
    rw [skipSpace_of_readValue hy, hys]
    rfl

/-- A list is read back, if its elements are. -/
theorem readsBack_list {xs : List (JsonValue F)} (h : ∀ x ∈ xs, ReadsBack x) :
    ReadsBack (list xs) := by
  constructor
  intro fuel rest hfuel hrest
  rw [write_list, writeList_eq_map] at hfuel ⊢
  simp only [List.length_append, List.length_cons] at hfuel
  obtain ⟨fuel, rfl⟩ : ∃ n, fuel = n + 1 := ⟨fuel - 1, by omega⟩
  rw [List.cons_append, List.cons_append, List.append_assoc, List.singleton_append,
    readValue_other fuel (by decide), readOther_list]
  cases xs with
  | nil => rfl
  | cons x xs =>
    have hread : readElements fuel (commas ((x :: xs).map write) ++ ']' :: rest) =
        some (x :: xs, rest) := readElements_write h rest (by omega)
    obtain ⟨n, q, hx⟩ := readValue_of_readElements hread
    rw [skipSpace_of_readValue hx]
    split
    · rename_i tail hbracket
      rw [hbracket, readValue_no_value (by decide)] at hx
      cases hx
    · rw [hread, Option.map_some]

/-- One item of a dictionary, and what its reader does with the text after it. -/
theorem readMembers_item {k : PyStr} {v : JsonValue F} (hk : k.Paired) (hv : ReadsBack v)
    {fuel : ℕ} (hfuel : 2 * v.write.length ≤ fuel) {rest : List Char} (hrest : Stops rest) :
    readMembers (fuel + 1) (k.quote ++ ':' :: ' ' :: v.write ++ rest) =
      match skipSpace rest with
      | '\x7d' :: rest => some ([(k, v)], rest)
      | ',' :: rest => do
        let (items, rest) ← readMembers fuel (skipSpace rest)
        pure ((k, v) :: items, rest)
      | _ => none := by
  have hvalue := hv.read fuel rest hfuel hrest
  have hquote : k.quote ++ ':' :: ' ' :: v.write ++ rest =
      '"' :: (k.flatMap CodePoint.escape ++ '"' :: ':' :: ' ' :: (v.write ++ rest)) := by
    simp [PyStr.quote]
  rw [hquote, readMembers_quote, readString_quoted, PyStr.joinPairs_of_paired hk]
  show (readValue fuel (skipSpace (v.write ++ rest)) >>= _) = _
  rw [skipSpace_of_readValue hvalue, hvalue]
  rfl

/-- The members of a dictionary are read back, if each of them is. -/
theorem readMembers_write {kv : PyStr × JsonValue F} {items : List (PyStr × JsonValue F)}
    (hkeys : ∀ kv' ∈ kv :: items, kv'.1.Paired)
    (hvalues : ∀ kv' ∈ kv :: items, ReadsBack kv'.2) (rest : List Char) {fuel : ℕ}
    (hfuel : 2 * (commas (writeItems (kv :: items))).length + 1 ≤ fuel) :
    readMembers fuel (commas (writeItems (kv :: items)) ++ '\x7d' :: rest) =
      some (kv :: items, rest) := by
  obtain ⟨k, v⟩ := kv
  have hk : k.Paired := hkeys _ (List.mem_cons_self ..)
  have hv : ReadsBack v := hvalues (k, v) (List.mem_cons_self ..)
  induction items generalizing k v fuel with
  | nil =>
    obtain ⟨fuel, rfl⟩ : ∃ n, fuel = n + 1 := ⟨fuel - 1, by omega⟩
    rw [writeItems_cons, writeItems_nil, commas] at hfuel ⊢
    simp only [List.length_append, List.length_cons] at hfuel
    rw [readMembers_item hk hv (by omega) (stops_cons (by decide) _)]
    rfl
  | cons kv items ih =>
    obtain ⟨k', v'⟩ := kv
    obtain ⟨fuel, rfl⟩ : ∃ n, fuel = n + 1 := ⟨fuel - 1, by omega⟩
    have hlen : (commas (writeItems ((k, v) :: (k', v') :: items))).length =
        k.quote.length + v.write.length + 4 +
          (commas (writeItems ((k', v') :: items))).length := by
      simp only [writeItems_cons, commas, List.length_append, List.length_cons]
      omega
    have hmore : readMembers fuel (commas (writeItems ((k', v') :: items)) ++ '\x7d' :: rest) =
        some ((k', v') :: items, rest) := ih k' v'
      (fun kv' h => hkeys kv' (List.mem_cons_of_mem _ h))
      (fun kv' h => hvalues kv' (List.mem_cons_of_mem _ h)) (by omega)
      (hkeys (k', v') (by simp)) (hvalues (k', v') (by simp))
    rw [writeItems_cons, writeItems_cons, commas_cons_cons, ← writeItems_cons,
      readMembers_item hk hv (by omega) (stops_cons (by decide) _)]
    show (readMembers fuel (skipSpace (commas (writeItems ((k', v') :: items)) ++ _)) >>= _) = _
    -- A member starts with a quotation mark, so that there is nothing more to skip.
    have hskip : skipSpace (commas (writeItems ((k', v') :: items)) ++ '\x7d' :: rest) =
        commas (writeItems ((k', v') :: items)) ++ '\x7d' :: rest := by
      cases items <;> rfl
    rw [hskip, hmore]
    rfl

/-- The items of a dictionary may be written in any order: the last value of a key is read. -/
theorem readValue_dict {items : List (PyStr × JsonValue F)} (hkeys : ∀ kv ∈ items, kv.1.Paired)
    (hvalues : ∀ kv ∈ items, ReadsBack kv.2) {fuel : ℕ}
    (hfuel : 2 * (dict items).write.length ≤ fuel) (rest : List Char) :
    readValue fuel ((dict items).write ++ rest) = some (dict (ofPairs items), rest) := by
  rw [write_dict] at hfuel ⊢
  simp only [List.length_append, List.length_cons] at hfuel
  obtain ⟨fuel, rfl⟩ : ∃ n, fuel = n + 1 := ⟨fuel - 1, by omega⟩
  rw [List.cons_append, List.cons_append, List.append_assoc, List.singleton_append,
    readValue_other fuel (by decide), readOther_dict]
  cases items with
  | nil => rfl
  | cons kv items =>
    have hread : readMembers fuel (commas (writeItems (kv :: items)) ++ '\x7d' :: rest) =
        some (kv :: items, rest) := readMembers_write hkeys hvalues rest (by omega)
    have hbegin : ∃ text, commas (writeItems (kv :: items)) ++ '\x7d' :: rest = '"' :: text := by
      cases items <;> exact ⟨_, rfl⟩
    obtain ⟨text, htext⟩ := hbegin
    rw [htext] at hread ⊢
    show (readMembers fuel ('"' :: text)).map _ = _
    rw [hread, Option.map_some]

/-- A dictionary is read back, if its keys and values are. -/
theorem readsBack_dict {items : List (PyStr × JsonValue F)}
    (hsorted : (items.map Prod.fst).Pairwise (· < ·)) (hkeys : ∀ kv ∈ items, kv.1.Paired)
    (hvalues : ∀ kv ∈ items, ReadsBack kv.2) : ReadsBack (dict items) := by
  constructor
  intro fuel rest hfuel _
  rw [readValue_dict hkeys hvalues hfuel, ofPairs_of_sorted hsorted]

/-- What `json.loads` can return, it reads back from the text of `json.dumps`. -/
theorem Loaded.readsBack {v : JsonValue F} (h : Loaded v) : ReadsBack v := by
  induction h with
  | null => exact readsBack_null
  | bool b => exact readsBack_bool b
  | int n => exact readsBack_int n
  | float x => exact readsBack_float x
  | str h => exact readsBack_str h
  | list _ ih => exact readsBack_list ih
  | dict hsorted hkeys _ ih => exact readsBack_dict hsorted hkeys ih

/-- A text that is a value to its end. -/
theorem loads_of_readValue {v : JsonValue F} {text : List Char}
    (h : readValue (2 * text.length + 1) (text ++ []) = some (v, [])) : loads text = .ok v := by
  rw [List.append_nil] at h
  rw [loads, skipSpace_of_readValue h, h]
  rfl

/-- What `json.dumps` writes, `json.loads` reads back. -/
theorem loads_dumps {v : JsonValue F} (h : Loaded v) : loads v.dumps = .ok v :=
  loads_of_readValue (h.readsBack.read _ [] (by rw [dumps]; omega) (by simp [Stops]))

/-- `json.dumps(d)` without `sort_keys`: the items in the order in which they were put in. -/
theorem loads_write_dict {items : List (PyStr × JsonValue F)} (hkeys : ∀ kv ∈ items, kv.1.Paired)
    (hvalues : ∀ kv ∈ items, Loaded kv.2) : loads (dict items).write = .ok (dict (ofPairs items)) :=
  loads_of_readValue
    (readValue_dict hkeys (fun kv hkv => (hvalues kv hkv).readsBack) (by omega) [])

/-- Different values have different texts. -/
theorem dumps_injective {v w : JsonValue F} (hv : Loaded v) (hw : Loaded w)
    (h : v.dumps = w.dumps) : v = w := by
  have hread := loads_dumps hv
  rw [h, loads_dumps hw] at hread
  exact (Except.ok.inj hread).symm

/-! ## What is read -/

/-- A string that was read has no surrogate pair left to join. -/
theorem paired_of_readString {text rest : List Char} {s : PyStr}
    (h : readString text = some (s, rest)) : s.Paired := by
  rw [readString, Option.map_eq_some_iff] at h
  obtain ⟨p, -, hp⟩ := h
  cases hp
  exact PyStr.paired_joinPairs _

/-- A number that was read is a value that can be loaded. -/
theorem loaded_of_readNumber {text rest : List Char} {v : JsonValue F}
    (h : readNumber text = some (v, rest)) : Loaded v := by
  rw [readNumber] at h
  split at h
  · cases h
    exact .float _
  · split at h
    · cases h
      exact .int _
    · cases h

/-- The readers of elements and of members return loaded values. -/
structure LoadsAll (elements : List Char → Option (List (JsonValue F) × List Char))
    (members : List Char → Option (List (PyStr × JsonValue F) × List Char)) : Prop where
  ofElements : ∀ text xs rest, elements text = some (xs, rest) → ∀ x ∈ xs, Loaded x
  ofMembers : ∀ text items rest, members text = some (items, rest) →
    ∀ kv ∈ items, kv.1.Paired ∧ Loaded kv.2

/-- So is a string, a list, a dictionary or a constant, if the values inside are. -/
theorem loaded_of_readOther {elements : List Char → Option (List (JsonValue F) × List Char)}
    {members : List Char → Option (List (PyStr × JsonValue F) × List Char)}
    (hinside : LoadsAll elements members) {text rest : List Char} {v : JsonValue F}
    (h : readOther elements members text = some (v, rest)) : Loaded v := by
  have hdict (items : List (PyStr × JsonValue F))
      (hitems : ∀ kv ∈ items, kv.1.Paired ∧ Loaded kv.2) :
      Loaded (dict (ofPairs items)) :=
    .dict (sorted_ofPairs items) (fun kv hkv => (hitems kv (mem_of_mem_ofPairs hkv)).1)
      fun kv hkv => (hitems kv (mem_of_mem_ofPairs hkv)).2
  unfold readOther at h
  split at h
  · obtain ⟨p, hp, hv⟩ := Option.map_eq_some_iff.mp h
    cases hv
    exact .str (paired_of_readString hp)
  · split at h
    · cases h
      exact .list (by simp)
    · obtain ⟨p, hp, hv⟩ := Option.map_eq_some_iff.mp h
      cases hv
      exact .list (hinside.1 _ _ _ hp)
  · split at h
    · cases h
      exact hdict [] (by simp)
    · obtain ⟨p, hp, hv⟩ := Option.map_eq_some_iff.mp h
      cases hv
      exact hdict _ (hinside.2 _ _ _ hp)
  · cases h
    exact .null
  · cases h
    exact .bool true
  · cases h
    exact .bool false
  · cases h
    exact .float _
  · cases h
    exact .float _
  · cases h
    exact .float _
  · cases h

/-- So is any value, if those inside are. -/
theorem loaded_of_readValue {fuel : ℕ}
    (hinside : LoadsAll (F := F) (readElements fuel) (readMembers fuel)) {text rest : List Char}
    {v : JsonValue F} (h : readValue (fuel + 1) text = some (v, rest)) : Loaded v := by
  rw [readValue_succ, Option.or_eq_some_iff] at h
  rcases h with h | ⟨-, h⟩
  · exact loaded_of_readNumber h
  · exact loaded_of_readOther hinside h

/-- So are the elements of a list, with one step less to read them. -/
theorem loaded_of_readElements {fuel : ℕ}
    (hvalue : ∀ text (v : JsonValue F) rest, readValue fuel text = some (v, rest) → Loaded v)
    (hmore : ∀ text (xs : List (JsonValue F)) rest, readElements fuel text = some (xs, rest) →
      ∀ x ∈ xs, Loaded x) {text rest : List Char} {xs : List (JsonValue F)}
    (h : readElements (fuel + 1) text = some (xs, rest)) : ∀ x ∈ xs, Loaded x := by
  rw [readElements_succ] at h
  obtain ⟨⟨x, after⟩, hx, h⟩ := Option.bind_eq_some_iff.mp h
  have hloaded := hvalue text x after hx
  dsimp only at h
  split at h
  · cases h
    simpa using hloaded
  · obtain ⟨⟨ys, rest'⟩, hys, h⟩ := Option.bind_eq_some_iff.mp h
    cases h
    exact List.forall_mem_cons.mpr ⟨hloaded, hmore _ ys rest' hys⟩
  · cases h

/-- So are the members of a dictionary, with one step less to read them. -/
theorem loaded_of_readMembers {fuel : ℕ}
    (hvalue : ∀ text (v : JsonValue F) rest, readValue fuel text = some (v, rest) → Loaded v)
    (hmore : ∀ text (items : List (PyStr × JsonValue F)) rest,
      readMembers fuel text = some (items, rest) → ∀ kv ∈ items, kv.1.Paired ∧ Loaded kv.2)
    {text rest : List Char} {items : List (PyStr × JsonValue F)}
    (h : readMembers (fuel + 1) text = some (items, rest)) :
    ∀ kv ∈ items, kv.1.Paired ∧ Loaded kv.2 := by
  unfold readMembers at h
  split at h
  · obtain ⟨⟨k, after⟩, hk, h⟩ := Option.bind_eq_some_iff.mp h
    have hpaired := paired_of_readString hk
    dsimp only at h
    split at h
    · obtain ⟨⟨v, after'⟩, hv, h⟩ := Option.bind_eq_some_iff.mp h
      have hloaded := hvalue _ v after' hv
      dsimp only at h
      split at h
      · cases h
        simpa using ⟨hpaired, hloaded⟩
      · obtain ⟨⟨items', rest'⟩, hitems, h⟩ := Option.bind_eq_some_iff.mp h
        cases h
        exact List.forall_mem_cons.mpr ⟨⟨hpaired, hloaded⟩, hmore _ items' rest' hitems⟩
      · cases h
    · cases h
  · cases h

/-- The readers return loaded values, whatever the fuel. -/
theorem loaded_of_read (fuel : ℕ) :
    (∀ text (v : JsonValue F) rest, readValue fuel text = some (v, rest) → Loaded v) ∧
      LoadsAll (F := F) (readElements fuel) (readMembers fuel) := by
  induction fuel with
  | zero =>
    refine ⟨?_, ?_, ?_⟩
    · intro text v rest h
      cases h
    · intro text xs rest h
      cases h
    · intro text items rest h
      cases h
  | succ fuel ih =>
    obtain ⟨hvalue, helements, hmembers⟩ := ih
    refine ⟨?_, ?_, ?_⟩
    · intro text v rest h
      exact loaded_of_readValue ⟨helements, hmembers⟩ h
    · intro text xs rest h
      exact loaded_of_readElements hvalue helements h
    · intro text items rest h
      exact loaded_of_readMembers hvalue hmembers h

/-- What `json.loads` returns can be written and loaded again. -/
theorem loaded_of_loads {text : List Char} {v : JsonValue F} (h : loads text = .ok v) :
    Loaded v := by
  rw [loads] at h
  split at h
  · rename_i value rest hread
    split at h
    · cases h
      exact (loaded_of_read _).1 _ _ _ hread
    · cases h
  · cases h

/-! ## What is written -/

/-- A dictionary is written without control characters. -/
theorem printed_dict {items : List (PyStr × JsonValue F)} (h : ∀ kv ∈ items, Printed kv.2.write) :
    Printed (dict items).write := by
  rw [write_dict, writeItems_eq_map, printed_append, printed_cons]
  refine ⟨⟨by decide, printed_commas ?_⟩, by simp [Printed]⟩
  rw [List.forall_mem_map]
  intro kv hkv
  rw [printed_append, printed_cons, printed_cons]
  exact ⟨printed_quote _, by decide, by decide, h kv hkv⟩

/-- What was loaded is written without control characters. -/
theorem Loaded.printed {v : JsonValue F} (h : Loaded v) : Printed v.dumps := by
  rw [dumps]
  induction h with
  | null => rw [write_null]; decide
  | bool b => cases b <;> rw [write_bool] <;> decide
  | int n => exact printed_of_numberChar fun c => numberChar_intText
  | float x =>
    rw [write_float]
    rcases FloatText.isFloatText_repr x with hname | ⟨hchars, -⟩
    · simp only [List.mem_cons, List.not_mem_nil, or_false] at hname
      rcases hname with h | h | h <;> rw [h] <;> decide
    · exact printed_of_numberChar (List.all_eq_true.mp hchars)
  | str h => exact printed_quote _
  | list _ ih =>
    rw [write_list, writeList_eq_map, printed_append, printed_cons]
    refine ⟨⟨by decide, printed_commas ?_⟩, by simp [Printed]⟩
    exact List.forall_mem_map.mpr ih
  | dict _ _ _ ih => exact printed_dict ih

end JsonValue

end Chen
