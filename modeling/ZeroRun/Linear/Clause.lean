import ZeroRun.Linear.Constraint

/-!
Choices between linear constraints.
-/
namespace ZeroRun.Linear

/-- A choice between constraints, of which one has to hold. -/
abbrev Clause := List Constraint

/-- Does one of the constraints of a clause hold? -/
def Clause.holds (clause : Clause) (x : Counters) : Bool :=
  List.any clause (·.holds x)

/-- What holds of whole numbers if a constraint does not; nothing is said for an equation. -/
def negation : Constraint → List Constraint
  | ⟨coefficients, .atMost, bound⟩ => [⟨coefficients, .atLeast, bound + 1⟩]
  | ⟨coefficients, .atLeast, bound⟩ => [⟨coefficients, .atMost, bound - 1⟩]
  | ⟨_, .equal, _⟩ => []

/-- Is a vector one of `n` natural numbers of which all constraints and all clauses hold? -/
def isModel (n : Nat) (constraints : List Constraint) (clauses : List Clause) (x : Counters) :
    Bool :=
  x.length = n && x.isNonneg && constraints.all (·.holds x) && clauses.all (·.holds x)

end ZeroRun.Linear
