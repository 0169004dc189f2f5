import Chen.Python.Json
import Mathlib.Data.List.Lex

/-!
# JSON values

What `json.loads` returns for any text, and the text that `json.dumps(value, sort_keys=True)`
writes. Strings are code points here, because a JSON text can escape a lone surrogate. The limits
of the interpreter on nesting and on the digits of an `int` are left out.
-/

namespace Chen

/-- A code point of a `str`, surrogates included. -/
abbrev CodePoint : Type := Fin 0x110000

/-- A `str` that may hold lone surrogates. -/
abbrev PyStr : Type := List CodePoint

namespace CodePoint

/-- The first code unit of a pair. -/
def IsHigh (c : CodePoint) : Prop := 0xd800 ≤ c.val ∧ c.val < 0xdc00

/-- The second code unit of a pair. -/
def IsLow (c : CodePoint) : Prop := 0xdc00 ≤ c.val ∧ c.val < 0xe000

instance (c : CodePoint) : Decidable c.IsHigh := inferInstanceAs (Decidable (_ ∧ _))

instance (c : CodePoint) : Decidable c.IsLow := inferInstanceAs (Decidable (_ ∧ _))

/-- The code point of a surrogate pair. -/
def joined (high low : CodePoint) : CodePoint :=
  Fin.ofNat _ (0x10000 + (high.val - 0xd800) * 0x400 + (low.val - 0xdc00))

/-- One code point of a JSON string. -/
def escape (c : CodePoint) : List Char :=
  if c.IsHigh ∨ c.IsLow then Json.unicodeEscape c.val else Json.escape (Char.ofNat c.val)

end CodePoint

namespace PyStr

/-- A `str` without surrogates. -/
def ofString (s : String) : PyStr := s.toList.map fun c => Fin.ofNat _ c.toNat

/-- A JSON string in double quotes. -/
def quote (s : PyStr) : List Char := '"' :: s.flatMap CodePoint.escape ++ ['"']

/-- Every surrogate pair becomes one code point. -/
def joinPairs : PyStr → PyStr
  | [] => []
  | [c] => [c]
  | c :: c' :: s =>
    if c.IsHigh ∧ c'.IsLow then c.joined c' :: joinPairs s else c :: joinPairs (c' :: s)

/-- No surrogate pair is spelt as two code points. -/
def Paired (s : PyStr) : Prop := s.IsChain fun c c' => ¬ (c.IsHigh ∧ c'.IsLow)

end PyStr

/-! ## Numbers -/

/-- The texts of `float` values. A text that was written for a number reads back as that number. -/
class FloatText (F : Type) where
  /-- `float.__repr__`, with the names that JSON has for the values that are not finite. -/
  repr : F → List Char
  /-- `float(text)`. -/
  ofText : List Char → F
  isFloatText_repr : ∀ x, Json.IsFloatText (repr x)
  ofText_repr : ∀ x, ofText (repr x) = x

/-- The `float` values: their texts, and the arithmetic of the sequence numbers. -/
class JsonFloat (F : Type) extends FloatText F where
  /-- `x + 1`. -/
  addOne : F → F
  /-- `x == n`. -/
  eqInt : F → ℤ → Bool
  /-- `x == y`. -/
  eq : F → F → Bool

/-- A `float` that is its text. A text of none is read as NaN. -/
instance : FloatText FloatRepr where
  repr x := x.text
  ofText cs := if h : Json.IsFloatText cs then ⟨cs, h⟩ else ⟨"NaN".toList, .inl (by simp)⟩
  isFloatText_repr x := x.isFloatText
  ofText_repr x := dif_pos x.isFloatText

/-- `int.__repr__`. -/
def Json.intText : ℤ → List Char
  | .ofNat n => Nat.toDigits 10 n
  | .negSucc n => '-' :: Nat.toDigits 10 (n + 1)

/-- `int(text)`. -/
def Json.intOfText (cs : List Char) : ℤ :=
  if cs.head? = some '-' then -(Nat.ofDigitChars 10 cs.tail 0 : ℤ) else Nat.ofDigitChars 10 cs 0

/-! ## Values -/

/-- A value that `json.loads` returns. A `dict` is its items in the order of their keys, in which
`sort_keys` writes them: dictionaries are equal whatever the order of their items. -/
inductive JsonValue (F : Type) where
  | null
  | bool (b : Bool)
  | int (n : ℤ)
  | float (x : F)
  | str (s : PyStr)
  | list (xs : List (JsonValue F))
  | dict (items : List (PyStr × JsonValue F))

namespace JsonValue

variable {F : Type}

/-- `d[key] = value`, on the items in order. -/
def insertKey {υ : Type} (key : PyStr) (value : υ) : List (PyStr × υ) → List (PyStr × υ)
  | [] => [(key, value)]
  | (k, v) :: items =>
    if key < k then (key, value) :: (k, v) :: items
    else if key = k then (key, value) :: items
    else (k, v) :: insertKey key value items

/-- `dict(pairs)`: the last value of a key stays. -/
def ofPairs {υ : Type} (pairs : List (PyStr × υ)) : List (PyStr × υ) :=
  pairs.foldl (fun items kv => insertKey kv.1 kv.2 items) []

section Writing

variable [FloatText F]

mutual

/-- The text of a value. -/
def write : JsonValue F → List Char
  | null => "null".toList
  | bool b => if b then "true".toList else "false".toList
  | int n => Json.intText n
  | float x => FloatText.repr x
  | str s => s.quote
  | list xs => '[' :: Json.commas (writeList xs) ++ [']']
  | dict items => '\x7b' :: Json.commas (writeItems items) ++ ['\x7d']

/-- The values of a list. -/
def writeList : List (JsonValue F) → List (List Char)
  | [] => []
  | x :: xs => write x :: writeList xs

/-- The items of a dictionary. -/
def writeItems : List (PyStr × JsonValue F) → List (List Char)
  | [] => []
  | (k, v) :: items => (k.quote ++ ':' :: ' ' :: write v) :: writeItems items

end

/-- `json.dumps(value, sort_keys=True)`. -/
def dumps (value : JsonValue F) : List Char := value.write

theorem write_null : (null : JsonValue F).write = "null".toList := rfl

theorem write_bool (b : Bool) :
    (bool b : JsonValue F).write = if b then "true".toList else "false".toList := rfl

theorem write_int (n : ℤ) : (int n : JsonValue F).write = Json.intText n := rfl

theorem write_float (x : F) : (float x).write = FloatText.repr x := rfl

theorem write_str (s : PyStr) : (str s : JsonValue F).write = s.quote := rfl

theorem write_list (xs : List (JsonValue F)) :
    (list xs).write = '[' :: Json.commas (writeList xs) ++ [']'] := rfl

theorem write_dict (items : List (PyStr × JsonValue F)) :
    (dict items).write = '\x7b' :: Json.commas (writeItems items) ++ ['\x7d'] := rfl

theorem writeList_cons (x : JsonValue F) (xs : List (JsonValue F)) :
    writeList (x :: xs) = x.write :: writeList xs := rfl

theorem writeItems_nil : writeItems ([] : List (PyStr × JsonValue F)) = [] := rfl

theorem writeItems_cons (k : PyStr) (v : JsonValue F) (items : List (PyStr × JsonValue F)) :
    writeItems ((k, v) :: items) = (k.quote ++ ':' :: ' ' :: v.write) :: writeItems items := rfl

end Writing

/-! ## Reading -/

section Reading

variable [FloatText F]

/-- A string from behind its opening quote, and the text after it. -/
def readString (text : List Char) : Option (PyStr × List Char) :=
  (Json.scan text).map fun p => (PyStr.joinPairs (p.1.map (Fin.ofNat _)), p.2)

/-- The number a text starts with. No character of a number can follow a number, so that the
longest run of such characters has to be one. -/
def readNumber (text : List Char) : Option (JsonValue F × List Char) :=
  let token := text.takeWhile Json.numberChar
  let rest := text.dropWhile Json.numberChar
  if Json.isFloat token then some (float (FloatText.ofText token), rest)
  else if Json.isInt token then some (int (Json.intOfText token), rest)
  else none

/-- A value that is no number, and the text after it, given the readers of what is inside brackets
and braces. -/
def readOther (elements : List Char → Option (List (JsonValue F) × List Char))
    (members : List Char → Option (List (PyStr × JsonValue F) × List Char)) :
    List Char → Option (JsonValue F × List Char)
  | '"' :: body => (readString body).map fun p => (str p.1, p.2)
  | '[' :: inside =>
    match Json.skipSpace inside with
    | ']' :: rest => some (list [], rest)
    | items => (elements items).map fun p => (list p.1, p.2)
  | '\x7b' :: inside =>
    match Json.skipSpace inside with
    | '\x7d' :: rest => some (dict [], rest)
    | items => (members items).map fun p => (dict (ofPairs p.1), p.2)
  | 'n' :: 'u' :: 'l' :: 'l' :: rest => some (null, rest)
  | 't' :: 'r' :: 'u' :: 'e' :: rest => some (bool true, rest)
  | 'f' :: 'a' :: 'l' :: 's' :: 'e' :: rest => some (bool false, rest)
  | 'N' :: 'a' :: 'N' :: rest => some (float (FloatText.ofText "NaN".toList), rest)
  | 'I' :: 'n' :: 'f' :: 'i' :: 'n' :: 'i' :: 't' :: 'y' :: rest =>
    some (float (FloatText.ofText "Infinity".toList), rest)
  | '-' :: 'I' :: 'n' :: 'f' :: 'i' :: 'n' :: 'i' :: 't' :: 'y' :: rest =>
    some (float (FloatText.ofText "-Infinity".toList), rest)
  | _ => none

mutual

/-- The value a text starts with, and the text after it. -/
def readValue : ℕ → List Char → Option (JsonValue F × List Char)
  | 0, _ => none
  | fuel + 1, text =>
    (readNumber text).or (readOther (readElements fuel) (readMembers fuel) text)

/-- The values of a list, from the first one on. -/
def readElements : ℕ → List Char → Option (List (JsonValue F) × List Char)
  | 0, _ => none
  | fuel + 1, text => do
    let (x, after) ← readValue fuel text
    match Json.skipSpace after with
    | ']' :: rest => pure ([x], rest)
    | ',' :: rest => do
      let (xs, rest) ← readElements fuel (Json.skipSpace rest)
      pure (x :: xs, rest)
    | _ => none

/-- The items of a dictionary, from the first one on. -/
def readMembers : ℕ → List Char → Option (List (PyStr × JsonValue F) × List Char)
  | 0, _ => none
  | fuel + 1, text =>
    match text with
    | '"' :: body => do
      let (k, after) ← readString body
      match Json.skipSpace after with
      | ':' :: rest => do
        let (v, after) ← readValue fuel (Json.skipSpace rest)
        match Json.skipSpace after with
        | '\x7d' :: rest => pure ([(k, v)], rest)
        | ',' :: rest => do
          let (items, rest) ← readMembers fuel (Json.skipSpace rest)
          pure ((k, v) :: items, rest)
        | _ => none
      | _ => none
    | _ => none

end

/-- `json.loads(text)`. A value of the text is at most as deep as two calls for each character. -/
def loads (text : List Char) : Except Exn (JsonValue F) :=
  match readValue (2 * text.length + 1) (Json.skipSpace text) with
  | some (value, rest) =>
    if (Json.skipSpace rest).isEmpty then .ok value
    else .error (.other "JSONDecodeError" "Extra data")
  | none => .error (.other "JSONDecodeError" "Expecting value")

end Reading

end JsonValue

end Chen
