import ZeroRun.Linear.Model
import ZeroRun.Proofs.Linear.Natural

/-!
Oracles for linear questions. A question asks for natural numbers of which constraints and clauses
hold. An oracle may give up on any question, but what it refutes has no model. The models it gives
are not trusted.

The library's own solver is an oracle that never gives up.
-/
namespace ZeroRun.Linear

/-- The answer to a question. -/
inductive Answer where
  | model (x : List Int)
  | refuted
  | unknown (reason : String)
deriving DecidableEq, Repr

/-- Answers questions for a number of unknowns, constraints and clauses. An oracle may remember
something from one question to the next. -/
structure Oracle where
  Memory : Type
  blank : Memory
  ask : Memory → Nat → List Constraint → List Clause → Answer × Memory
  sound : ∀ memory n constraints clauses, (ask memory n constraints clauses).1 = .refuted →
    ∀ x, isModel n constraints clauses x = false

namespace Oracle

/-- Does the oracle, asked for the first time, refute the constraints? -/
def refutes (oracle : Oracle) (n : Nat) (constraints : List Constraint) : Bool :=
  (oracle.ask oracle.blank n constraints []).1 = .refuted

theorem no_model_of_refutes {oracle : Oracle} {n : Nat} {constraints : List Constraint}
    (refuted : oracle.refutes n constraints = true) (x : Counters) :
    isModel n constraints [] x = false :=
  oracle.sound _ _ _ _ (of_decide_eq_true refuted) x

/-- An oracle that first asks for a solution with further constraints. -/
def preferring (oracle : Oracle) (further : List Constraint) : Oracle where
  Memory := oracle.Memory × oracle.Memory
  blank := (oracle.blank, oracle.blank)
  ask := fun (first, second) n constraints clauses =>
    match oracle.ask first n (constraints ++ further) clauses with
    | (.model x, first) => (.model x, (first, second))
    | (_, first) =>
      let (answer, second) := oracle.ask second n constraints clauses
      (answer, (first, second))
  sound := by
    rintro ⟨first, second⟩ n constraints clauses refuted
    dsimp only at refuted
    split at refuted
    · cases refuted
    · exact oracle.sound second n constraints clauses refuted

end Oracle

/-- The thorough search stands behind the quick one, so what neither finds is not there. -/
theorem no_model_of_recallModel? {memory : Memory} {n : Nat} {constraints : List Constraint}
    {clauses : List Clause} (failed : (recallModel? memory n constraints clauses).1 = none)
    (x : Counters) : isModel n constraints clauses x = false := by
  simp only [recallModel?] at failed
  split at failed
  · split at failed
    · cases failed
    · exact no_model_of_thoroughModel? failed x
  · split at failed
    · rename_i checked
      exact no_model_of_checks checked x
    · exact no_model_of_thoroughModel? failed x
  · exact no_model_of_thoroughModel? failed x

/-- The library's own linear solver as an oracle. -/
def solver : Oracle where
  Memory := Memory
  blank := none
  ask := fun memory n constraints clauses =>
    match recallModel? memory n constraints clauses with
    | (some x, memory) => (.model x, memory)
    | (none, memory) => (.refuted, memory)
  sound := by
    intro memory n constraints clauses refuted
    split at refuted
    · cases refuted
    · rename_i failed
      exact no_model_of_recallModel? (by rw [failed])

end ZeroRun.Linear
