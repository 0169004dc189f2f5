import Chen.Python.JsonRoundTrip
import Chen.Reproducibility

/-!
# The canonical text of a config

`json.dumps(config, sort_keys=True, default=str)` writes one text for each JSON value: the order in
which a dictionary got its items does not matter, and different JSON values have different texts. A
tuple stands for the list of its items, and an object of another type for what `str` makes of it. A
hash of the text is a hash of the JSON value.
-/

namespace Chen

namespace Json

/-! ## The value that a config stands for -/

mutual

/-- The JSON value that a config stands for. -/
def toValue : Json → JsonValue FloatRepr
  | .null => .null
  | .bool b => .bool b
  | .int n => .int n
  | .float x => .float x
  | .str s => .str (PyStr.ofString s)
  | .list xs => .list (toValues xs)
  | .tuple xs => .list (toValues xs)
  | .dict items => .dict ((toItems items).insertionSort (·.1 ≤ ·.1))
  | .object text => .str (PyStr.ofString text)

/-- The values of a list. -/
def toValues : List Json → List (JsonValue FloatRepr)
  | [] => []
  | x :: xs => toValue x :: toValues xs

/-- The items of a dictionary. -/
def toItems : List (String × Json) → List (PyStr × JsonValue FloatRepr)
  | [] => []
  | (k, v) :: items => (PyStr.ofString k, toValue v) :: toItems items

end

/-- The values of a list, one by one. -/
theorem toValues_eq_map (xs : List Json) : toValues xs = xs.map toValue := by
  induction xs with
  | nil => rfl
  | cons x xs ih => rw [toValues, ih, List.map_cons]

/-- The values of a dictionary, item by item. -/
theorem toItems_eq_map (items : List (String × Json)) :
    toItems items = items.map fun kv => (PyStr.ofString kv.1, toValue kv.2) := by
  induction items with
  | nil => rfl
  | cons kv items ih => rw [toItems, ih, List.map_cons]

/-- No dictionary has a key twice, at any depth. -/
inductive Distinct : Json → Prop
  | null : Distinct .null
  | bool (b : Bool) : Distinct (.bool b)
  | int (n : ℤ) : Distinct (.int n)
  | float (x : FloatRepr) : Distinct (.float x)
  | str (s : String) : Distinct (.str s)
  | list {xs : List Json} (h : ∀ x ∈ xs, Distinct x) : Distinct (.list xs)
  | tuple {xs : List Json} (h : ∀ x ∈ xs, Distinct x) : Distinct (.tuple xs)
  | dict {items : List (String × Json)} (hkeys : (items.map Prod.fst).Nodup)
      (hvalues : ∀ kv ∈ items, Distinct kv.2) : Distinct (.dict items)
  | object (text : String) : Distinct (.object text)

/-! ## Its text -/

/-- Strings are ordered like their code points. -/
theorem ofString_le_iff {s t : String} : PyStr.ofString s ≤ PyStr.ofString t ↔ s ≤ t := by
  have hmono : ∀ c d : Char, c < d →
      (Fin.ofNat 0x110000 c.toNat : CodePoint) < Fin.ofNat 0x110000 d.toNat := by
    intro c d hcd
    rw [Fin.lt_def, PyStr.val_ofNat_toNat, PyStr.val_ofNat_toNat]
    exact hcd
  have hlt : ∀ {s t : String}, s < t → PyStr.ofString s < PyStr.ofString t :=
    fun h => List.map_lt hmono (String.lt_iff_toList_lt.mp h)
  constructor
  · intro h
    exact not_lt.mp fun hts => not_lt.mpr h (hlt hts)
  · intro h
    rcases h.lt_or_eq with h | rfl
    · exact (hlt h).le
    · exact le_rfl

/-- A string is quoted like its code points. -/
theorem quote_ofString (s : String) : (PyStr.ofString s).quote = quote s := by
  have hescape : ∀ c : Char, CodePoint.escape (Fin.ofNat 0x110000 c.toNat) = escape c := by
    intro c
    have hc := toNat_range c
    rw [CodePoint.escape, PyStr.val_ofNat_toNat, Char.ofNat_toNat, if_neg]
    rw [CodePoint.IsHigh, CodePoint.IsLow, PyStr.val_ofNat_toNat]
    omega
  rw [PyStr.quote, quote, PyStr.ofString, List.flatMap_map]
  simp only [hescape]

/-- The text of an integer. -/
theorem toList_toString (n : ℤ) : (toString n).toList = intText n := by
  cases n with
  | ofNat m => exact String.toList_ofList
  | negSucc m =>
    show ("-" ++ Nat.repr (m + 1)).toList = _
    rw [String.toList_append]
    exact congrArg _ String.toList_ofList

/-- A list is written item by item. -/
theorem writeList_eq_map (xs : List Json) : writeList xs = xs.map write := by
  induction xs with
  | nil => rfl
  | cons x xs ih => rw [writeList, ih, List.map_cons]

/-- A dictionary is written item by item, each beside its key. -/
theorem writeDict_eq_map (items : List (String × Json)) :
    writeDict items = items.map fun kv => (kv.1, quote kv.1 ++ ':' :: ' ' :: write kv.2) := by
  induction items with
  | nil => rfl
  | cons kv items ih => rw [writeDict, ih, List.map_cons]

/-- The items of a dictionary in the order of their keys. -/
def sorted (items : List (String × Json)) : List (String × Json) :=
  items.insertionSort (·.1 ≤ ·.1)

/-- Items are sorted alike before and after their values are taken. -/
theorem insertionSort_toItems (items : List (String × Json)) :
    (toItems items).insertionSort (·.1 ≤ ·.1) = toItems (sorted items) := by
  rw [toItems_eq_map, toItems_eq_map, sorted]
  symm
  apply List.map_insertionSort
  exact fun kv _ kv' _ => ofString_le_iff.symm

/-- Items are sorted alike before and after they are written. -/
theorem insertionSort_writeDict (items : List (String × Json)) :
    (writeDict items).insertionSort (·.1 ≤ ·.1) = writeDict (sorted items) := by
  rw [writeDict_eq_map, writeDict_eq_map, sorted]
  symm
  apply List.map_insertionSort
  exact fun kv _ kv' _ => Iff.rfl

/-- Distinct keys increase once they are sorted. -/
theorem pairwise_sorted {items : List (String × Json)} (h : (items.map Prod.fst).Nodup) :
    (sorted items).Pairwise fun kv kv' => kv.1 < kv'.1 := by
  have hle := List.pairwise_insertionSort (fun kv kv' : String × Json => kv.1 ≤ kv'.1) items
  have hperm := List.perm_insertionSort (fun kv kv' : String × Json => kv.1 ≤ kv'.1) items
  have hne : (sorted items).Pairwise fun kv kv' => kv.1 ≠ kv'.1 :=
    List.pairwise_map.mp ((hperm.map Prod.fst).nodup_iff.mpr h)
  exact (hle.and hne).imp fun hkv => lt_of_le_of_ne hkv.1 hkv.2

/-- Sorting keeps the items. -/
theorem mem_sorted {items : List (String × Json)} {kv : String × Json} :
    kv ∈ sorted items ↔ kv ∈ items :=
  (List.perm_insertionSort _ items).mem_iff

/-- What is written is the text of the value. -/
theorem Distinct.write_toValue {j : Json} (h : j.Distinct) : (toValue j).write = j.write := by
  have hvalues {xs : List Json} (ih : ∀ x ∈ xs, (toValue x).write = x.write) :
      '[' :: commas (JsonValue.writeList (toValues xs)) ++ [']'] =
        '[' :: commas (writeList xs) ++ [']'] := by
    rw [JsonValue.writeList_eq_map, writeList_eq_map, toValues_eq_map, List.map_map]
    exact congrArg (fun texts => '[' :: commas texts ++ [']']) (List.map_congr_left ih)
  induction h with
  | null | bool | float => rfl
  | int n => exact (toList_toString n).symm
  | str s => exact quote_ofString s
  | list _ ih => exact hvalues ih
  | tuple _ ih => exact hvalues ih
  | object text => exact quote_ofString text
  | @dict items _ _ ih =>
    rw [toValue, JsonValue.write_dict, write, insertionSort_toItems, insertionSort_writeDict,
      JsonValue.writeItems_eq_map, writeDict_eq_map, toItems_eq_map, List.map_map, List.map_map]
    have hitems : ∀ kv ∈ sorted items,
        (PyStr.ofString kv.1).quote ++ ':' :: ' ' :: (toValue kv.2).write =
          quote kv.1 ++ ':' :: ' ' :: write kv.2 := by
      intro kv hkv
      rw [quote_ofString, ih kv (mem_sorted.mp hkv)]
    exact congrArg (fun texts => '\x7b' :: commas texts ++ ['\x7d']) (List.map_congr_left hitems)

/-- The value of a config is one that `json.loads` can return. -/
theorem Distinct.loaded {j : Json} (h : j.Distinct) : JsonValue.Loaded (toValue j) := by
  have hvalues {xs : List Json} (ih : ∀ x ∈ xs, JsonValue.Loaded (toValue x)) :
      JsonValue.Loaded (.list (toValues xs)) := by
    rw [toValues_eq_map]
    exact .list (List.forall_mem_map.mpr ih)
  induction h with
  | null => exact .null
  | bool b => exact .bool b
  | int n => exact .int n
  | float x => exact .float x
  | str s => exact .str (PyStr.paired_ofString s)
  | list _ ih => exact hvalues ih
  | tuple _ ih => exact hvalues ih
  | object text => exact .str (PyStr.paired_ofString text)
  | @dict items hkeys _ ih =>
    rw [toValue, insertionSort_toItems, toItems_eq_map]
    refine .dict ?_ ?_ ?_
    · rw [List.map_map, List.pairwise_map]
      refine (pairwise_sorted hkeys).imp fun hlt => ?_
      exact lt_of_not_ge fun hle => not_le.mpr hlt (ofString_le_iff.mp hle)
    · exact List.forall_mem_map.mpr fun kv _ => PyStr.paired_ofString kv.1
    · exact List.forall_mem_map.mpr fun kv hkv => ih kv (mem_sorted.mp hkv)

/-- Two configs have one text if and only if they stand for one JSON value. -/
theorem dumps_eq_iff {j j' : Json} (h : j.Distinct) (h' : j'.Distinct) :
    j.dumps = j'.dumps ↔ toValue j = toValue j' := by
  rw [dumps, dumps, String.ofList_inj, ← h.write_toValue, ← h'.write_toValue]
  constructor
  · exact JsonValue.dumps_injective h.loaded h'.loaded
  · exact congrArg JsonValue.write

/-- The order of the items does not matter. -/
theorem toValue_perm {items items' : List (String × Json)} (h : (items.map Prod.fst).Nodup)
    (hperm : items.Perm items') : toValue (.dict items) = toValue (.dict items') := by
  have hsorted : sorted items = sorted items' := by
    have hperm' : (sorted items).Perm (sorted items') :=
      ((List.perm_insertionSort _ items).trans hperm).trans (List.perm_insertionSort _ items').symm
    refine hperm'.eq_of_pairwise ?_ (pairwise_sorted h)
      (pairwise_sorted ((hperm.map Prod.fst).nodup_iff.mp h))
    exact fun kv kv' _ _ hlt hlt' => absurd hlt' (lt_asymm hlt)
  rw [toValue, toValue, insertionSort_toItems, insertionSort_toItems, hsorted]

/-- Dictionaries that stand for one JSON value have one another's items. -/
theorem exists_mem_of_toValue_eq {items items' : List (String × Json)}
    (h : toValue (.dict items) = toValue (.dict items')) {kv : String × Json}
    (hkv : kv ∈ items) : ∃ v, (kv.1, v) ∈ items' ∧ toValue v = toValue kv.2 := by
  rw [toValue, toValue, insertionSort_toItems, insertionSort_toItems, toItems_eq_map,
    toItems_eq_map] at h
  have hmem : (PyStr.ofString kv.1, toValue kv.2) ∈
      (sorted items').map fun kv => (PyStr.ofString kv.1, toValue kv.2) := by
    rw [← JsonValue.dict.inj h]
    exact List.mem_map.mpr ⟨kv, mem_sorted.mpr hkv, rfl⟩
  obtain ⟨⟨k, v⟩, hmem, heq⟩ := List.mem_map.mp hmem
  obtain ⟨hk, hv⟩ := Prod.mk.inj heq
  have hkey : k = kv.1 := PyStr.ofString_injective hk
  exact ⟨v, hkey ▸ mem_sorted.mp hmem, hv⟩

end Json

/-- Unless the digest collides, two configs have one hash if and only if they are one text. -/
theorem hashConfig_eq_hashConfig_iff [Hashlib] {config config' : List (String × Json)}
    (hsha : Hashlib.sha256 (Str.utf8 (Json.dict config).dumps) =
      Hashlib.sha256 (Str.utf8 (Json.dict config').dumps) →
        (Json.dict config).dumps = (Json.dict config').dumps) :
    hashConfig config = hashConfig config' ↔
      (Json.dict config).dumps = (Json.dict config').dumps :=
  ⟨fun h => hsha (Str.hex_injective h), fun h => by rw [hashConfig, hashConfig, h]⟩

/-- Unless SHA-256 collides on their texts, two configs whose dictionaries have no key twice have
one hash if and only if they stand for one JSON value; the order of the items does not matter. -/
theorem hashConfig_eq_iff [Hashlib] (config config' : List (String × Json))
    (h : (Json.dict config).Distinct) (h' : (Json.dict config').Distinct)
    (hsha : Hashlib.sha256 (Str.utf8 (Json.dict config).dumps) =
      Hashlib.sha256 (Str.utf8 (Json.dict config').dumps) →
        (Json.dict config).dumps = (Json.dict config').dumps) :
    (hashConfig config = hashConfig config' ↔
        (Json.dict config).toValue = (Json.dict config').toValue) ∧
      ∀ reordered, config.Perm reordered → hashConfig reordered = hashConfig config := by
  refine ⟨(hashConfig_eq_hashConfig_iff hsha).trans (Json.dumps_eq_iff h h'), ?_⟩
  intro reordered hperm
  cases h with
  | dict hkeys hvalues =>
    have hdistinct : (Json.dict reordered).Distinct :=
      .dict ((hperm.map Prod.fst).nodup_iff.mp hkeys) fun kv hkv =>
        hvalues kv (hperm.mem_iff.mpr hkv)
    have hdumps : (Json.dict reordered).dumps = (Json.dict config).dumps :=
      (Json.dumps_eq_iff hdistinct (.dict hkeys hvalues)).mpr (Json.toValue_perm hkeys hperm).symm
    rw [hashConfig, hashConfig, hdumps]

section Examples

local instance canonicalHashlib : Hashlib := Hashlib.checksum

/-- Two configs that differ in one number, under a digest that tells them apart: their hashes
differ, and the order of the items is not to be seen in them. -/
theorem hashConfig_eq_iff_phase :
    hashConfig [("phase", .int 1), ("stop", .tuple [.null, .bool true])] ≠
        hashConfig [("stop", .list [.null, .bool true]), ("phase", .int 2)] ∧
      hashConfig [("stop", .tuple [.null, .bool true]), ("phase", .int 1)] =
        hashConfig [("phase", .int 1), ("stop", .tuple [.null, .bool true])] := by
  have hstop : (Json.tuple [.null, .bool true]).Distinct :=
    .tuple (by simp [Json.Distinct.null, Json.Distinct.bool])
  have hstop' : (Json.list [.null, .bool true]).Distinct :=
    .list (by simp [Json.Distinct.null, Json.Distinct.bool])
  have hspec := hashConfig_eq_iff [("phase", .int 1), ("stop", .tuple [.null, .bool true])]
    [("stop", .list [.null, .bool true]), ("phase", .int 2)]
    (.dict (by decide) (by simp [Json.Distinct.int, hstop]))
    (.dict (by decide) (by simp [Json.Distinct.int, hstop']))
    (fun h => absurd h (by decide))
  constructor
  · intro h
    exact absurd (congrArg JsonValue.write (hspec.1.mp h)) (by decide)
  · exact hspec.2 _ (List.Perm.swap _ _ _)

/-- A tuple and the list of its items have one hash, and so have an object and its `str`. -/
example : hashConfig [("stop", .tuple [.int 1]), ("path", .object "p")] =
    hashConfig [("path", .str "p"), ("stop", .list [.int 1])] := by
  decide

end Examples

end Chen
