import ZeroRun.Linear.Clause
import ZeroRun.Linear.Lattice
import ZeroRun.Linear.Separation

/-!
A thorough search for solutions of linear systems in natural numbers. A system without a solution
in whole numbers has none. If some functional is positive on a column and negative on none, the
unknown of that column is bounded, and its values are tried in turn. If there is no such
functional, a positive combination of the columns is zero, and adding it often enough to a
solution in whole numbers makes that solution non-negative.
-/
namespace ZeroRun.Linear

/-- The first success of `f` on `start`, `start + 1`, and so on, `count` values in all. -/
def tryFrom {α : Type} (f : Nat → Option α) : (count start : Nat) → Option α
  | 0, _ => none
  | count + 1, start =>
    match f start with
    | some a => some a
    | none => tryFrom f count (start + 1)

/-- What is known of a list of columns: functionals that are non-negative on all of them, and
non-negative combinations of them that sum to zero. -/
structure Survey where
  functionals : List Counters := []
  kernels : List (List Int) := []

/-- Is the column positive under some functional, or does it take part in some combination? -/
def Survey.covers (survey : Survey) (columns : List Counters) (k : Nat) : Bool :=
  survey.functionals.any (fun f => 0 < Counters.dot f (columns.getD k []))
    || survey.kernels.any fun kernel => 0 < kernel.getD k 0

/-- Adds what the alternative for column `k` gives. -/
def Survey.extend (survey : Survey) (columns : List Counters) (k : Nat) : Survey :=
  let s := separate (columns.getD k []) (columns.eraseIdx k)
  if 0 < s.headWeight then
    { survey with kernels := s.weights.insertIdx k s.headWeight :: survey.kernels }
  else { survey with functionals := s.functional :: survey.functionals }

/-- A survey that covers every column. -/
def surveyOf (columns : List Counters) : Survey :=
  (List.range columns.length).foldl (fun survey k =>
    if survey.covers columns k then survey else survey.extend columns k) {}

/-- An upper bound for the unknown of a column that a functional is positive on. -/
def boundBy? (target column functional : Counters) : Option Int :=
  let slope := Counters.dot functional column
  if 0 < slope then some (Counters.dot functional target / slope) else none

/-- The upper bound for the unknown of column `k` by one of the functionals, if there is one. -/
def boundOf? (functionals : List Counters) (columns : List Counters) (target : Counters)
    (k : Nat) : Option (Nat × Int) :=
  ((functionals.filterMap (boundBy? target (columns.getD k []))).min?).map fun bound => (k, bound)

/-- The tightest of the bounds. -/
def tightest : List (Nat × Int) → Option (Nat × Int)
  | [] => none
  | b :: bs =>
    match tightest bs with
    | none => some b
    | some c => if b.2 ≤ c.2 then some b else some c

/-- The target left over when the unknown of a column has the value `v`. -/
def remaining (target column : Counters) (v : Int) : Counters :=
  Counters.add target (Counters.scale (-v) column)

/-- The sum of combinations. -/
def sumKernels (length : Nat) (kernels : List (List Int)) : List Int :=
  kernels.foldl Counters.add (Counters.zero length)

/-- How often a positive list has to be added so that no entry of `z` is negative. -/
def liftCount : List Int → List Int → Nat
  | z :: zs, k :: ks => max (if z < 0 then ((-z + k - 1) / k).toNat else 0) (liftCount zs ks)
  | _, _ => 0

/-- A solution of `columns · x = target` in natural numbers, for a system of at most `n` columns. -/
def solveWithin : (n : Nat) → List Counters → Counters → Option (List Int)
  | 0, _, target => if target.isZero then some [] else none
  | n + 1, columns, target =>
    match combination? columns target with
    | none => none
    | some z =>
      let survey := surveyOf columns
      let bounds := (List.range columns.length).filterMap
        (boundOf? survey.functionals columns target)
      match tightest bounds with
      | some (k, bound) =>
        let column := columns.getD k []
        tryFrom (fun v =>
          (solveWithin n (columns.eraseIdx k) (remaining target column v)).map
            (·.insertIdx k (v : Int)))
          (bound + 1).toNat 0
      | none =>
        let kernel := sumKernels columns.length survey.kernels
        some (Counters.add z (Counters.scale (liftCount z kernel) kernel))

/-- A solution of `columns · x = target` in natural numbers, if there is one. -/
def naturalSolution? (columns : List Counters) (target : Counters) : Option (List Int) :=
  solveWithin columns.length columns target

/-- The column of the unknown `k` in a list of constraints. -/
def columnOf (constraints : List Constraint) (k : Nat) : Counters :=
  constraints.map fun c => c.coefficients.getD k 0

/-- The column of the slack of constraint `k`: an inequality leaves a natural number over. -/
def slackOf? (constraints : List Constraint) (k : Nat) : Option Counters :=
  match constraints[k]? with
  | some ⟨_, .atMost, _⟩ => some (unitVector constraints.length k)
  | some ⟨_, .atLeast, _⟩ => some (Counters.scale (-1) (unitVector constraints.length k))
  | _ => none

/-- Natural numbers for `n` unknowns of which all constraints hold, if there are any. -/
def naturalModel? (n : Nat) (constraints : List Constraint) : Option (List Int) :=
  let unknowns := (List.range n).map (columnOf constraints)
  let slacks := (List.range constraints.length).filterMap (slackOf? constraints)
  (naturalSolution? (unknowns ++ slacks) (constraints.map Constraint.bound)).map (·.take n)

/-- The first success of `solve` with one more constraint out of a list. When a constraint has
failed, it may be taken not to hold. -/
def splitOver (solve : List Constraint → Option (List Int)) :
    (choices constraints : List Constraint) → Option (List Int)
  | [], _ => none
  | choice :: choices, constraints =>
    match solve (choice :: constraints) with
    | some x => some x
    | none => splitOver solve choices (negation choice ++ constraints)

/-- As `thoroughModel?`, with at most `n` clauses left to satisfy. -/
def modelWithin (unknowns : Nat) : (n : Nat) → List Clause → List Constraint → Option (List Int)
  | 0, _, constraints => naturalModel? unknowns constraints
  | n + 1, clauses, constraints =>
    match naturalModel? unknowns constraints with
    | none => none
    | some x =>
      match clauses.findIdx? (fun clause => !clause.holds x) with
      | none => some x
      | some k =>
        splitOver (modelWithin unknowns n (clauses.eraseIdx k)) (clauses.getD k []) constraints

/-- Natural numbers for the unknowns of which all constraints and all clauses hold. A clause is
split only when the solution at hand violates it. -/
def thoroughModel? (unknowns : Nat) (constraints : List Constraint) (clauses : List Clause) :
    Option (List Int) :=
  modelWithin unknowns clauses.length clauses constraints

end ZeroRun.Linear
