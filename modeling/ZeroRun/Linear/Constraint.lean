import ZeroRun.Counters
import ZeroRun.Error

/-!
Linear constraints over a vector of whole numbers: a weighted sum compared with a bound.
-/
namespace ZeroRun

/-- How a weighted sum is compared with a bound. -/
inductive Comparison where
  | atMost
  | atLeast
  | equal
deriving DecidableEq, Repr

namespace Comparison

/-- The sign of a comparison. -/
def symbol : Comparison → String
  | .atMost => "<="
  | .atLeast => ">="
  | .equal => "=="

/-- The comparison that a sign stands for. -/
def ofSymbol (symbol : String) : Except Error Comparison :=
  if symbol = "<=" then .ok .atMost
  else if symbol = ">=" then .ok .atLeast
  else if symbol = "==" then .ok .equal
  else .error (.unknownComparison symbol)

/-- Does the comparison hold between a value and a bound? -/
def holds (comparison : Comparison) (value bound : Int) : Bool :=
  match comparison with
  | .atMost => value ≤ bound
  | .atLeast => bound ≤ value
  | .equal => value = bound

end Comparison

/-- The constraint `coefficients · x  comparison  bound`. -/
structure Constraint where
  coefficients : List Int
  comparison : Comparison
  bound : Int
deriving DecidableEq, Repr

namespace Constraint

/-- The number of unknowns that the constraint speaks of. -/
def dimension (c : Constraint) : Nat :=
  c.coefficients.length

/-- The weighted sum. -/
def evaluate (c : Constraint) (x : Counters) : Int :=
  Counters.dot c.coefficients x

/-- Does the constraint hold of a vector? -/
def holds (c : Constraint) (x : Counters) : Bool :=
  c.comparison.holds (c.evaluate x) c.bound

/-- A constraint on the unknown `k` of `n` alone. -/
def unit (n k : Nat) (comparison : Comparison) (bound : Int) : Constraint :=
  ⟨(List.range n).map fun i => if i = k then 1 else 0, comparison, bound⟩

/-- Is every number of the constraint short enough to be written? -/
def isWritable (c : Constraint) : Bool :=
  c.coefficients.all Decimal.isWritable && Decimal.isWritable c.bound

/-- The terms with a non-zero coefficient, their sum compared with the bound. -/
def toText (c : Constraint) : Except Error String := do
  let terms ← (c.coefficients.zipIdx.filter fun (a, _) => a ≠ 0).mapM fun (a, i) => do
    return (← Text.int a) ++ "*c" ++ toString i
  return (if terms.isEmpty then "0" else " + ".intercalate terms)
    ++ " " ++ c.comparison.symbol ++ " " ++ (← Text.int c.bound)

end Constraint
end ZeroRun
