import Mathlib.Data.Rat.Defs

/-!
# Cost model

USD rates, as exact rationals.
-/

namespace Chen

/-- USD cost rates. -/
structure CostModel where
  inputPer1M : ℚ := 15 / 100
  outputPer1M : ℚ := 60 / 100
  per1MParamsPer1KTokens : ℚ := 1 / 100000
deriving DecidableEq

/-- USD cost of one expert invocation. The parameter tax is the monolith's. -/
def CostModel.costFor (c : CostModel) (inputTokens outputTokens : ℤ) (paramsM : ℕ := 0)
    (includeParamTax : Bool := false) : ℚ :=
  let cost := inputTokens / 1000000 * c.inputPer1M + outputTokens / 1000000 * c.outputPer1M
  if includeParamTax && decide (0 < paramsM) then
    let totalTokens := inputTokens + outputTokens
    cost + paramsM * (totalTokens / 1000) * c.per1MParamsPer1KTokens
  else cost

end Chen
