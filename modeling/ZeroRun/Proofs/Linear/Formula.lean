import ZeroRun.Guard
import ZeroRun.Proofs.Counters

/-! The formula that a guard is put to a solver as means the same as the guard. It leaves out the
unknowns with the coefficient zero, which add nothing to the sums, and the coefficients for which
there is no unknown, which no product has a part in. -/
namespace ZeroRun

namespace Counters

/-- The products begin with the entry that is dropped next. -/
theorem cons_dot_drop (factor : Int) (rest x : Counters) (n : Nat) :
    dot (factor :: rest) (x.drop n) = factor * x.getD n 0 + dot rest (x.drop (n + 1)) := by
  by_cases inside : n < x.length
  · rw [List.drop_eq_getElem_cons inside, dot_cons, List.getD_eq_getElem?_getD,
      List.getElem?_eq_getElem inside, Option.getD_some]
  · have outside : x.length ≤ n := Nat.not_lt.1 inside
    simp [List.drop_eq_nil_of_le outside, List.drop_eq_nil_of_le (Nat.le_succ_of_le outside),
      List.getElem?_eq_none outside]

/-- Entries without a counterpart do not count. -/
theorem take_length_dot (a x : Counters) : dot (a.take x.length) x = dot a x := by
  induction a generalizing x with
  | nil => simp
  | cons y a ih =>
    cases x with
    | nil => simp
    | cons z x => simp [ih x]

end Counters

namespace Linear

/-- The terms for some coefficients add up to their product with the unknowns that they belong
to. -/
theorem sum_terms (x : Counters) (factors : List Int) (first : Nat) :
    (((factors.zipIdx first).filterMap fun (factor, unknown) =>
      if factor = 0 then none else some (Term.multiple factor unknown)).map
        (Term.value x)).foldr (· + ·) 0 = Counters.dot factors (x.drop first) := by
  induction factors generalizing first with
  | nil => simp
  | cons factor factors ih =>
    rw [List.zipIdx_cons, List.filterMap_cons, Counters.cons_dot_drop, ← ih (first + 1)]
    by_cases zero : factor = 0
    · simp [zero]
    · simp [zero, Term.value]

theorem holds_ofConstraint (c : Constraint) (x : Counters) :
    (Atom.ofConstraint x.length c).holds x = c.holds x := by
  have sum := sum_terms x (c.coefficients.take x.length) 0
  rw [List.drop_zero, Counters.take_length_dot] at sum
  rw [Atom.holds, Atom.ofConstraint, Constraint.holds, Constraint.evaluate, ← sum]
  simp [Term.value]

end Linear

/-- With one unknown for each counter, the formula of a guard holds exactly if the guard does. -/
theorem Guard.holds_formula (g : Guard) (x : Counters) :
    (g.formula x.length).holds x = g.holds x := by
  unfold formula
  by_cases trivial : g.isTrivial = true
  · rw [if_pos trivial, holds, List.isEmpty_iff.1 trivial]
    rfl
  · rw [if_neg trivial, Linear.Formula.holds, holds, List.all_map]
    exact congrArg g.constraints.all (funext fun c => Linear.holds_ofConstraint c x)

end ZeroRun
