import ZeroRun.Linear.Refutation
import ZeroRun.Proofs.Counters

/-! A reason that passes its check is right: constraints and clauses refuted by it have no model
in natural numbers. Nothing is said about where the reason comes from. -/
namespace ZeroRun.Linear

theorem isModel_iff {n : Nat} {constraints : List Constraint} {clauses : List Clause}
    {x : Counters} :
    isModel n constraints clauses x = true ↔
      x.length = n ∧ x.isNonneg = true ∧ (∀ c ∈ constraints, c.holds x = true) ∧
        ∀ clause ∈ clauses, Clause.holds clause x = true := by
  simp [isModel, and_assoc]

theorem holds_atMost {a : List Int} {bound : Int} {x : Counters} :
    (Constraint.mk a .atMost bound).holds x = true ↔ Counters.dot a x ≤ bound :=
  decide_eq_true_iff

theorem holds_atLeast {a : List Int} {bound : Int} {x : Counters} :
    (Constraint.mk a .atLeast bound).holds x = true ↔ bound ≤ Counters.dot a x :=
  decide_eq_true_iff

theorem holds_equal {a : List Int} {bound : Int} {x : Counters} :
    (Constraint.mk a .equal bound).holds x = true ↔ Counters.dot a x = bound :=
  decide_eq_true_iff

/-- A constraint that does not hold of whole numbers leaves its negation. -/
theorem negation_holds {c d : Constraint} {x : Counters} (fails : c.holds x = false)
    (mem : d ∈ negation c) : d.holds x = true := by
  obtain ⟨coefficients, comparison, bound⟩ := c
  cases comparison with
  | atMost =>
    simp only [negation, List.mem_singleton] at mem
    subst mem
    rw [Bool.eq_false_iff, ne_eq, holds_atMost] at fails
    rw [holds_atLeast]
    omega
  | atLeast =>
    simp only [negation, List.mem_singleton] at mem
    subst mem
    rw [Bool.eq_false_iff, ne_eq, holds_atLeast] at fails
    rw [holds_atMost]
    omega
  | equal => simp [negation] at mem

private theorem dot_addMultiple (y : Int) {as : List Int} (cs : List Int) {x : List Int} (long : x.length ≤ as.length) :
    Counters.dot (addMultiple y as cs) x = Counters.dot as x + y * Counters.dot cs x := by
  induction as generalizing cs x with
  | nil =>
    have empty : x = [] := List.eq_nil_of_length_eq_zero (by simpa using long)
    simp [empty]
  | cons a as ih =>
    cases cs with
    | nil => simp [addMultiple]
    | cons c cs =>
      cases x with
      | nil => simp
      | cons v x =>
        have tail := ih cs (x := x) (by simpa using long)
        simp only [addMultiple, Counters.dot_cons, tail, Int.mul_add, Int.add_mul, Int.mul_assoc]
        omega

private theorem length_addMultiple (y : Int) (as cs : List Int) :
    (addMultiple y as cs).length = as.length := by
  induction as generalizing cs with
  | nil => cases cs <;> rfl
  | cons a as ih =>
    cases cs with
    | nil => rfl
    | cons c cs => simp [addMultiple, ih]

/-- A constraint that holds reads as an upper bound after multiplication. -/
private theorem scaled_le {y : Int} {c : Constraint} {x : Counters}
    (may : mayScale y c.comparison = true) (holds : c.holds x = true) :
    y * Counters.dot c.coefficients x ≤ y * c.bound := by
  obtain ⟨coefficients, comparison, bound⟩ := c
  cases comparison with
  | atMost => exact Int.mul_le_mul_of_nonneg_left (holds_atMost.1 holds) (of_decide_eq_true may)
  | atLeast => exact Int.mul_le_mul_of_nonpos_left (of_decide_eq_true may) (holds_atLeast.1 holds)
  | equal => exact Int.le_of_eq (by rw [holds_equal.1 holds])

/-- Summing constraints that hold keeps an upper bound. -/
private theorem sumUp_le {multipliers : List Int} {constraints : List Constraint}
    {coefficients x : List Int} {bound : Int} (long : x.length ≤ coefficients.length)
    (may : ∀ p ∈ multipliers.zip constraints, mayScale p.1 p.2.comparison = true)
    (holds : ∀ c ∈ constraints, c.holds x = true)
    (below : Counters.dot coefficients x ≤ bound) :
    Counters.dot (sumUp multipliers constraints (coefficients, bound)).1 x ≤
      (sumUp multipliers constraints (coefficients, bound)).2 := by
  induction multipliers generalizing constraints coefficients bound with
  | nil => simpa [sumUp] using below
  | cons y multipliers ih =>
    cases constraints with
    | nil => simpa [sumUp] using below
    | cons c constraints =>
      simp only [List.zip_cons_cons, List.forall_mem_cons] at may holds
      simp only [sumUp]
      split
      · exact ih long may.2 holds.2 below
      · apply ih
        · rw [length_addMultiple]
          exact long
        · exact may.2
        · exact holds.2
        · rw [dot_addMultiple y _ long]
          have scaled := scaled_le may.1 holds.1
          omega

private theorem contradict_sound {n : Nat} {multipliers : List Int}
    {constraints : List Constraint} {x : Counters}
    (contradicts : contradict n multipliers constraints = true) (fits : x.length = n)
    (nonneg : x.isNonneg = true) (holds : ∀ c ∈ constraints, c.holds x = true) : False := by
  simp only [contradict, Bool.and_eq_true, List.all_eq_true, decide_eq_true_eq] at contradicts
  obtain ⟨⟨may, coefficients⟩, negative⟩ := contradicts
  have start : Counters.dot (Counters.zero n) x ≤ 0 :=
    Int.le_of_eq (by rw [Counters.dot_comm, Counters.dot_zero])
  have above := sumUp_le (by simp [fits]) may holds start
  have below := Counters.dot_nonneg coefficients nonneg
  omega

private theorem holds_append {constraints further : List Constraint} {x : Counters}
    (holds : ∀ c ∈ constraints, c.holds x = true) (more : ∀ c ∈ further, c.holds x = true) :
    ∀ c ∈ constraints ++ further, c.holds x = true := by
  intro c mem
  rcases List.mem_append.1 mem with mem | mem
  · exact holds c mem
  · exact more c mem

/- The three recursions follow one another. A vector that satisfies all clauses, whatever the
constraints at hand, is taken along; the constraints grow on the way down. -/
mutual

private theorem checks_sound {n : Nat} {clauses : List Clause} {x : Counters}
    (point : isModel n [] clauses x = true) :
    (reason : Refutation) → (constraints : List Constraint) →
    reason.checks n clauses constraints = true →
    (∀ c ∈ constraints, c.holds x = true) → False
  | .sum multipliers, constraints, checked, holds =>
    contradict_sound (by simpa [Refutation.checks] using checked) (isModel_iff.1 point).1
      (isModel_iff.1 point).2.1 holds
  | .values f low below above each, constraints, checked, holds => by
    simp only [Refutation.checks, Bool.and_eq_true] at checked
    obtain ⟨⟨belowChecked, aboveChecked⟩, eachChecked⟩ := checked
    -- The functional is below the tried values, above them, or one of them.
    by_cases under : Counters.dot f x ≤ low - 1
    · refine checks_sound point below _ belowChecked (holds_append holds ?_)
      simpa [holds_atMost] using under
    · by_cases beyond : low + each.length ≤ Counters.dot f x
      · refine checks_sound point above _ aboveChecked (holds_append holds ?_)
        simpa [holds_atLeast] using beyond
      · exact checksValues_sound point f each low constraints eachChecked holds (by omega) (by omega)
  | .choices k each, constraints, checked, holds => by
    simp only [Refutation.checks] at checked
    cases found : clauses[k]? with
    | none => simp [found] at checked
    | some clause =>
      simp only [found] at checked
      exact checksChoices_sound point each clause constraints checked holds
        ((isModel_iff.1 point).2.2.2 clause (List.mem_of_getElem? found))

private theorem checksValues_sound {n : Nat} {clauses : List Clause} {x : Counters}
    (point : isModel n [] clauses x = true) (f : List Int) :
    (each : List Refutation) → (low : Int) → (constraints : List Constraint) →
    checksValues n clauses f each low constraints = true →
    (∀ c ∈ constraints, c.holds x = true) → low ≤ Counters.dot f x →
    Counters.dot f x < low + each.length → False
  | [], low, constraints, _, _, atLeast, under => by
    simp only [List.length_nil] at under
    omega
  | reason :: each, low, constraints, checked, holds, atLeast, under => by
    simp only [checksValues, Bool.and_eq_true] at checked
    by_cases here : Counters.dot f x = low
    · refine checks_sound point reason _ checked.1 (holds_append holds ?_)
      simpa [holds_equal] using here
    · refine checksValues_sound point f each (low + 1) constraints checked.2 holds (by omega) ?_
      simp only [List.length_cons] at under
      omega

private theorem checksChoices_sound {n : Nat} {clauses : List Clause} {x : Counters}
    (point : isModel n [] clauses x = true) :
    (each : List Refutation) → (options constraints : List Constraint) →
    checksChoices n clauses each options constraints = true →
    (∀ c ∈ constraints, c.holds x = true) → Clause.holds options x = true → False
  | _, [], _, _, _, chosen => by simp [Clause.holds] at chosen
  | [], _ :: _, _, checked, _, _ => by simp [checksChoices] at checked
  | reason :: each, option :: options, constraints, checked, holds, chosen => by
    simp only [checksChoices, Bool.and_eq_true] at checked
    cases first : option.holds x with
    | true =>
      refine checks_sound point reason _ checked.1 (holds_append holds ?_)
      simpa using first
    | false =>
      refine checksChoices_sound point each options _ checked.2
        (holds_append holds fun c mem => negation_holds first mem) ?_
      simpa [Clause.holds, first] using chosen

end

/-- What a checked reason refutes has no model. -/
theorem no_model_of_checks {n : Nat} {constraints : List Constraint} {clauses : List Clause}
    {reason : Refutation} (checked : reason.checks n clauses constraints = true) (x : Counters) :
    isModel n constraints clauses x = false := by
  rw [Bool.eq_false_iff]
  intro model
  obtain ⟨fits, nonneg, holds, choices⟩ := isModel_iff.1 model
  exact checks_sound (isModel_iff.2 ⟨fits, nonneg, by simp, choices⟩) reason constraints checked
    holds

end ZeroRun.Linear
