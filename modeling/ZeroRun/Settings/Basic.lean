import ZeroRun.Settings.Budget
import ZeroRun.Settings.Policy

/-!
The settings of a query: its budget, the modulus it starts with and how it grows, the number of
workers, and the integer check before the first search. The timeout of the integer check is for the
oracle that answers it.
-/
namespace ZeroRun

/-- The integer check before the first search. -/
structure Precheck where
  enabled : Bool := false
  maxSteps : Option Int := some 64
  timeoutMs : Option Int := none
deriving BEq

/-- The settings of a query. -/
structure Settings where
  budget : Budget := {}
  initialModulus : Int := 2
  policy : ModulusPolicy := .double
  workers : Int := 1
  precheck : Precheck := {}
deriving BEq

/-- A limit that is set is at least one. -/
def atLeastOne : Option Int → Bool
  | none => true
  | some n => decide (1 ≤ n)

/-- Settings within their bounds. -/
structure Settings.Valid (settings : Settings) : Prop where
  budget : settings.budget.Valid
  modulus : 2 ≤ settings.initialModulus
  workers : 1 ≤ settings.workers
  maxSteps : atLeastOne settings.precheck.maxSteps
  timeoutMs : atLeastOne settings.precheck.timeoutMs

end ZeroRun
