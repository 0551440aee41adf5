import ZeroRun.Linear.Clause

/-!
Reasons why constraints and clauses have no model in natural numbers. A reason is a sum of
constraints that no vector satisfies, or it distinguishes cases: the values that a functional may
take, or the choices of a clause.

`Refutation.checks` follows a reason step by step. It searches for nothing, so it does not matter
where the reason comes from.
-/
namespace ZeroRun.Linear

/-- A reason why there is no model. -/
inductive Refutation where
  /-- The constraints, with these multipliers, sum to a contradiction. -/
  | sum (multipliers : List Int)
  /-- The functional is below `low`, or has one of the next values, or is above these. -/
  | values (functional : List Int) (low : Int) (below above : Refutation) (each : List Refutation)
  /-- One of the choices of the clause with this number holds. -/
  | choices (clause : Nat) (each : List Refutation)

mutual

/-- Does the reason use the constraint with the number `k`? -/
def Refutation.uses (k : Nat) : Refutation → Bool
  | .sum multipliers => multipliers.getD k 0 ≠ 0
  | .values _ _ below above each => below.uses k || above.uses k || anyUses k each
  | .choices _ each => anyUses k each

/-- Does one of the reasons use the constraint with the number `k`? -/
def anyUses (k : Nat) : List Refutation → Bool
  | [] => false
  | r :: rs => r.uses k || anyUses k rs

end

mutual

/-- The same reason for the constraints without that with the number `k`. -/
def Refutation.without (k : Nat) : Refutation → Refutation
  | .sum multipliers => .sum (multipliers.eraseIdx k)
  | .values f low below above each =>
    .values f low (below.without k) (above.without k) (eachWithout k each)
  | .choices clause each => .choices clause (eachWithout k each)

/-- The same reasons for the constraints without that with the number `k`. -/
def eachWithout (k : Nat) : List Refutation → List Refutation
  | [] => []
  | r :: rs => r.without k :: eachWithout k rs

end

/-- May a constraint be multiplied by `y` and still read as an upper bound? -/
def mayScale (y : Int) : Comparison → Bool
  | .atMost => 0 ≤ y
  | .atLeast => y ≤ 0
  | .equal => true

/-- Adds the `y`-fold of a list to another one, whose length is kept. -/
def addMultiple (y : Int) : List Int → List Int → List Int
  | a :: as, c :: cs => (a + y * c) :: addMultiple y as cs
  | as, _ => as

/-- The coefficients and the bound of a sum of constraints, added to those given. -/
def sumUp : List Int → List Constraint → List Int × Int → List Int × Int
  | y :: ys, c :: cs, (coefficients, bound) =>
    if y = 0 then sumUp ys cs (coefficients, bound)
    else sumUp ys cs (addMultiple y coefficients c.coefficients, bound + y * c.bound)
  | _, _, total => total

/-- Do the multipliers sum the constraints to an upper bound below zero for a sum of `n` natural
numbers that cannot be negative? -/
def contradict (n : Nat) (multipliers : List Int) (constraints : List Constraint) : Bool :=
  let (coefficients, bound) := sumUp multipliers constraints (Counters.zero n, 0)
  (multipliers.zip constraints).all (fun (y, c) => mayScale y c.comparison)
    && Counters.isNonneg coefficients && decide (bound < 0)

mutual

/-- Does the reason show that the constraints and clauses have no model of length `n`? -/
def Refutation.checks (n : Nat) (clauses : List Clause) : Refutation → List Constraint → Bool
  | .sum multipliers, constraints => contradict n multipliers constraints
  | .values f low below above each, constraints =>
    below.checks n clauses (constraints ++ [⟨f, .atMost, low - 1⟩])
      && above.checks n clauses (constraints ++ [⟨f, .atLeast, low + each.length⟩])
      && checksValues n clauses f each low constraints
  | .choices k each, constraints =>
    match clauses[k]? with
    | none => false
    | some clause => checksChoices n clauses each clause constraints

/-- Does each reason refute one value of the functional, from `low` on? -/
def checksValues (n : Nat) (clauses : List Clause) (f : List Int) :
    List Refutation → (low : Int) → List Constraint → Bool
  | [], _, _ => true
  | r :: rs, low, constraints =>
    r.checks n clauses (constraints ++ [⟨f, .equal, low⟩])
      && checksValues n clauses f rs (low + 1) constraints

/-- Does each reason refute one choice, when the choices before it do not hold? -/
def checksChoices (n : Nat) (clauses : List Clause) :
    List Refutation → (choices constraints : List Constraint) → Bool
  | _, [], _ => true
  | [], _ :: _, _ => false
  | r :: rs, choice :: choices, constraints =>
    r.checks n clauses (constraints ++ [choice])
      && checksChoices n clauses rs choices (constraints ++ negation choice)

end

end ZeroRun.Linear
