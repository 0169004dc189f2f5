import Chen.Core.Expert
import Chen.Python.Dict
import Chen.Python.Float
import Chen.Python.Regex
import Mathlib.Algebra.GroupWithZero.Nat

/-!
# Features of a prompt

The deterministic features that the logistic router weighs: length, code, mathematics, questions,
and the density of each role's keywords.
-/

namespace Chen

/-- `_ROLE_KEYWORDS`. -/
def roleKeywords : Dict ExpertRole (List String) :=
  [(.analyst, ["extract", "entity", "parse", "summarize", "analyze", "identify", "list", "find",
      "what", "who", "where", "when"]),
    (.reasoner, ["why", "how", "explain", "derive", "prove", "calculate", "solve", "math",
      "physics", "logic", "reason", "step", "equation", "formula", "reasoning"]),
    (.coder, ["code", "python", "javascript", "java", "c++", "rust", "go", "sql", "function",
      "class", "bug", "debug", "compile", "runtime", "stack", "trace", "segfault", "allocator",
      "refactor", "implement", "algorithm"]),
    (.synthesizer, ["write", "compose", "draft", "generate", "produce", "essay", "story", "poem",
      "haiku", "letter", "email", "report", "summary"]),
    (.translator, ["translate", "translation", "in french", "in spanish", "in german",
      "in chinese", "in japanese", "translate to"])]

section Indicators

variable [Unicode]

open Re

/-- `_CODE_INDICATORS`. -/
def codeIndicators : Re :=
  oneOf [word "def", word "class", word "import", word "from", word "function", word "return",
    lit ['<', '<'], lit ['>', '>'], lit ['=', '>'], lit ['-', '>'], lit [':', ':'],
    seq (lit ['\x7b']) (seq (star space) lineEnd),
    seq lineStart (seq (star space) (lit ['\x7d'])),
    lit ['\x60', '\x60', '\x60']]

/-- `_MATH_INDICATORS`. -/
def mathIndicators : Re :=
  oneOf [
    seq (plus digit) (seq (star space) (seq (cls "+-*/^") (seq (star space) digit))),
    lit "\\frac".toList, lit "\\sum".toList, lit "\\int".toList, lit "\\sqrt".toList,
    lit "\\alpha".toList, lit "\\beta".toList, word "equation", word "formula", word "proof"]

end Indicators

/-- `_extract_features`. -/
def extractFeatures (R : Type) [Unicode] [PyFloat R] (prompt : String) : Dict String R :=
  let text := Unicode.lower prompt
  let n : ℕ := max 1 prompt.length
  let flag (b : Bool) : R := if b then PyFloat.lit 1 else PyFloat.lit 0
  [("length_short", flag (n < 100)),
    ("length_medium", flag (100 ≤ n && n < 500)),
    ("length_long", flag (500 ≤ n)),
    ("has_code", flag (codeIndicators.search prompt)),
    ("has_math", flag (mathIndicators.search prompt)),
    ("has_question", flag (prompt.toList.contains '?'))] ++
  roleKeywords.map fun (role, kws) =>
    ("kw_" ++ role.value,
      PyFloat.lit ((kws.map (Str.count text)).sum : ℕ) / (PyFloat.lit (n : ℕ) / PyFloat.lit 100))

end Chen
