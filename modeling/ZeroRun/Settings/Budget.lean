import ZeroRun.Error

/-!
Ceilings on the effort spent on one query. A limit that is not set does not bind.
-/
namespace ZeroRun

/-- The ceilings that can be hit. -/
inductive Limit where
  | iterations
  | modulus
  | pathLength
  | time
deriving DecidableEq, Repr

/-- The name of a ceiling. -/
def Limit.name : Limit → String
  | .iterations => "iterations"
  | .modulus => "modulus"
  | .pathLength => "path_length"
  | .time => "time"

/-- Ceilings for one query. -/
structure Budget where
  maxIterations : Option Int := none
  maxModulus : Option Int := none
  maxPathLength : Option Int := none
  maxTime : Option Number := none
deriving BEq

namespace Budget

/-- The limits by name, in the order in which they are looked at. -/
def limits (budget : Budget) : List (String × Option Number) :=
  [("max_iterations", budget.maxIterations.map .int),
    ("max_modulus", budget.maxModulus.map .int),
    ("max_path_length", budget.maxPathLength.map .int),
    ("max_time", budget.maxTime)]

/-- Is the limit absent or not negative? -/
def isAdmissible : Option Number → Bool
  | none => true
  | some value => !value.isNegative

/-- No limit is negative. -/
def Valid (budget : Budget) : Prop :=
  ∀ limit ∈ budget.limits, isAdmissible limit.2

instance (budget : Budget) : Decidable budget.Valid :=
  inferInstanceAs (Decidable (∀ limit ∈ budget.limits, isAdmissible limit.2))

/-- The first limit of a list that is negative. -/
def firstNegative? : List (String × Option Number) → Option (String × Number)
  | [] => none
  | (name, some value) :: limits =>
    if value.isNegative then some (name, value) else firstNegative? limits
  | (_, none) :: limits => firstNegative? limits

/-- The budget, if no limit is negative. -/
def checked (budget : Budget) : Except Error Budget :=
  match firstNegative? budget.limits with
  | some (name, value) => .error (.negativeLimit name value)
  | none => .ok budget

end Budget
end ZeroRun
