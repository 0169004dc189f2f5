import Mathlib.Data.List.Basic

/-!
# Python exceptions

The exceptions that the modelled code raises or catches. Every one of them is an `Exception`, so
`except Exception` catches them all.
-/

namespace Chen

/-- An exception with the values its message is built from. -/
inductive Exn where
  /-- `IncompatibleCacheError`: the cache cannot be transferred to, or used by, a backend. -/
  | incompatibleCache (message : String)
  | notImplemented (message : String)
  | value (message : String)
  | runtime (message : String)
  /-- `ValueError(f"{pipeline}.sequence references unknown experts: {missing}. Available: …")`. -/
  | unknownExperts (pipeline : String) (missing available : List String)
  /-- `KeyError(f"Expert '{name}' not found. Available: …")`. -/
  | expertNotFound (name : String) (available : List String)
  /-- Any other exception class, such as one of a third-party library. -/
  | other (cls message : String)
deriving DecidableEq, Repr

end Chen
