import Chen.Python.Text

/-!
# Regular expressions

The constructs of `re` that the feature extraction uses. Only the existence of a match matters
there, so a matcher returns every position at which a match can end.
-/

namespace Chen

/-- A position in a text: the character before it, and the text after it. -/
structure Re.Pos where
  prev : Option Char
  rest : List Char

/-- A regular expression. -/
inductive Re where
  /-- One character of a class. -/
  | chr (p : Char → Bool)
  | seq (r s : Re)
  | alt (r s : Re)
  | star (r : Re)
  /-- An assertion on the characters before and after the position. -/
  | look (p : Option Char → Option Char → Bool)

namespace Re

/-- Zero or more steps, each of which moves on. -/
def starEnds (step : Pos → List Pos) : ℕ → Pos → List Pos
  | 0, q => [q]
  | n + 1, q => q :: (step q).flatMap fun q' =>
      if q'.rest.length < q.rest.length then starEnds step n q' else []

/-- The positions at which a match that starts at `q` ends. -/
def ends : Re → Pos → List Pos
  | chr p, q =>
    match q.rest with
    | c :: cs => if p c then [⟨some c, cs⟩] else []
    | [] => []
  | seq r s, q => (r.ends q).flatMap s.ends
  | alt r s, q => r.ends q ++ s.ends q
  | star r, q => starEnds r.ends q.rest.length q
  | look p, q => if p q.prev q.rest.head? then [q] else []

/-- Whether a match starts at `prev`, `rest` or later. -/
def searchFrom (r : Re) (prev : Option Char) : List Char → Bool
  | [] => !(r.ends ⟨prev, []⟩).isEmpty
  | c :: cs => !(r.ends ⟨prev, c :: cs⟩).isEmpty || r.searchFrom (some c) cs

/-- `re.search`, as a truth value. -/
def search (r : Re) (text : String) : Bool := r.searchFrom none text.toList

/-- `r+`. -/
def plus (r : Re) : Re := seq r (star r)

/-- A text that matches itself. -/
def lit : List Char → Re
  | [] => look fun _ _ => true
  | c :: cs => seq (chr (· = c)) (lit cs)

/-- `r₁|…|rₙ`. -/
def oneOf : List Re → Re
  | [] => look fun _ _ => false
  | r :: rs => alt r (oneOf rs)

/-- `\s`, `\d` and `[…]`. -/
def space [Unicode] : Re := chr Unicode.isSpace
@[inherit_doc space] def digit [Unicode] : Re := chr Unicode.isDigit
@[inherit_doc space] def cls (cs : String) : Re := chr fun c => cs.toList.contains c

/-- `\b`: a word character on exactly one side. -/
def wordBoundary [Unicode] : Re :=
  look fun before after => (before.any Unicode.isWord) != (after.any Unicode.isWord)

/-- `^` and `$` under `re.MULTILINE`. -/
def lineStart : Re := look fun before _ => before.all (· = '\n')
@[inherit_doc lineStart] def lineEnd : Re := look fun _ after => after.all (· = '\n')

/-- `\bword\b`. -/
def word [Unicode] (w : String) : Re := seq wordBoundary (seq (lit w.toList) wordBoundary)

end Re

namespace Str

/-- Occurrences of `sub` that do not overlap; the first `skip` characters belong to the last one
found. -/
def countFrom (sub : List Char) : ℕ → List Char → ℕ
  | _, [] => 0
  | skip + 1, _ :: cs => countFrom sub skip cs
  | 0, c :: cs =>
    if sub.isPrefixOf (c :: cs) then countFrom sub (sub.length - 1) cs + 1 else countFrom sub 0 cs

/-- `s.count(sub)`, for a `sub` that is not empty. -/
def count (s sub : String) : ℕ := countFrom sub.toList 0 s.toList

end Str

end Chen
