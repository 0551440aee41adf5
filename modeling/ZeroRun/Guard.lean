import ZeroRun.Linear.Formula

/-!
Guards of transitions: conjunctions of linear constraints over the counters. The empty
conjunction always holds.
-/
namespace ZeroRun

/-- A conjunction of linear constraints. -/
structure Guard where
  constraints : List Constraint
deriving DecidableEq, Repr

namespace Guard

/-- The guard without constraints. -/
def always : Guard := ⟨[]⟩

/-- A constraint on one counter, which has to exist. -/
def onCounter (comparison : Comparison) (dimension counter value : Int) : Except Error Guard :=
  if 0 ≤ counter ∧ counter < dimension then
    .ok ⟨[Constraint.unit dimension.toNat counter.toNat comparison value]⟩
  else .error (.counterOutOfRange counter dimension)

/-- A single linear constraint, its comparison given by a sign. -/
def linear (coefficients : List Int) (symbol : String) (bound : Int) : Except Error Guard := do
  let comparison ← Comparison.ofSymbol symbol
  return ⟨[⟨coefficients, comparison, bound⟩]⟩

/-- Both guards together. -/
def conjoin (a b : Guard) : Guard :=
  ⟨a.constraints ++ b.constraints⟩

/-- Has the guard no constraint? -/
def isTrivial (g : Guard) : Bool :=
  g.constraints.isEmpty

/-- Do all constraints hold of the counters? -/
def holds (g : Guard) (counters : Counters) : Bool :=
  g.constraints.all (·.holds counters)

/-- The constraints in order, or `true`. -/
def toText (g : Guard) : Except Error String := do
  if g.isTrivial then return "true"
  return " && ".intercalate (← g.constraints.mapM Constraint.toText)

/-- The guard as a formula over one unknown for each counter. -/
def formula (g : Guard) (unknowns : Nat) : Linear.Formula :=
  if g.isTrivial then .truth true else .all (g.constraints.map (Linear.Atom.ofConstraint unknowns))

end Guard
end ZeroRun
