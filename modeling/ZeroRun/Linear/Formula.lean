import ZeroRun.Linear.Constraint

/-!
Formulas over numbered unknowns, as a solver takes them: a sum of terms compared with a bound, and
the conjunction of such comparisons.
-/
namespace ZeroRun.Linear

/-- A number, or a multiple of an unknown. -/
inductive Term where
  | number (value : Int)
  | multiple (factor : Int) (unknown : Nat)
deriving DecidableEq, Repr

/-- A sum of terms that is compared with a bound. -/
structure Atom where
  terms : List Term
  comparison : Comparison
  bound : Int
deriving DecidableEq, Repr

/-- A truth value, or a conjunction. -/
inductive Formula where
  | truth (value : Bool)
  | all (atoms : List Atom)
deriving DecidableEq, Repr

/-- The value of a term with a value for each unknown. -/
def Term.value (x : Counters) : Term → Int
  | .number value => value
  | .multiple factor unknown => factor * x.getD unknown 0

namespace Atom

/-- Does the comparison hold with a value for each unknown? -/
def holds (x : Counters) (atom : Atom) : Bool :=
  atom.comparison.holds ((atom.terms.map (Term.value x)).foldr (· + ·) 0) atom.bound

/-- A constraint over the first unknowns. The sum begins with zero, and an unknown with the
coefficient zero does not occur in it. -/
def ofConstraint (unknowns : Nat) (c : Constraint) : Atom :=
  let terms := (c.coefficients.take unknowns).zipIdx.filterMap fun (factor, unknown) =>
    if factor = 0 then none else some (.multiple factor unknown)
  ⟨.number 0 :: terms, c.comparison, c.bound⟩

end Atom

/-- Does the formula hold with a value for each unknown? -/
def Formula.holds (x : Counters) : Formula → Bool
  | .truth value => value
  | .all atoms => atoms.all (Atom.holds x)

end ZeroRun.Linear
