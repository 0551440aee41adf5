import ZeroRun.Linear.Descent
import ZeroRun.Linear.Natural

/-!
Models of linear constraints and clauses in natural numbers. The quick search answers nearly
always, and its answer is checked; where it gives up, the thorough search decides.

The same constraints may be asked about again with further clauses. Then the quick search is
resumed where it stopped. Since its answers are checked, it does not matter what is remembered.
-/
namespace ZeroRun.Linear

/-- What is remembered from an earlier answer: how to go on. -/
abbrev Memory := Option (List Clause → Outcome)

/-- Natural numbers for `n` unknowns of which all constraints and all clauses hold, if there are
any, and what to remember. -/
def recallModel? (memory : Memory) (n : Nat) (constraints : List Constraint)
    (clauses : List Clause) : Option (List Int) × Memory :=
  let outcome := match memory with
    | some resume => resume clauses
    | none => seek n constraints clauses
  match outcome with
  | .found x resume =>
    if isModel n constraints clauses x then (some x, some resume)
    else (thoroughModel? n constraints clauses, none)
  | .refuted reason =>
    if reason.checks n clauses constraints then (none, some fun _ => .refuted reason)
    else (thoroughModel? n constraints clauses, none)
  | .unclear => (thoroughModel? n constraints clauses, none)

end ZeroRun.Linear
