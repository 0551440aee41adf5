import Mathlib
import ZeroRun.Linear.Oracle
import ZeroRun.Proofs.Linear.Solution

/-! Oracles that can be trusted in both directions. The library's own solver is one: what it finds
are models, since the quick search is checked and the thorough one solves the equations that the
constraints become with what each inequality leaves over. -/
namespace ZeroRun.Linear
open Counters (add scale zero dot)

variable {n k i : Nat} {constraints : List Constraint} {clauses : List Clause} {x : Counters}

/-! ## Constraints -/

/-- What is left over lies on the right side of the bound. -/
theorem holds_slack {c : Constraint} {column : Counters} (row : constraints[i]? = some c)
    (slack : slackOf? constraints k = some column) :
    c.comparison.holds (-(column.getD i 0)) 0 = true := by
  have inside : i < constraints.length := (List.getElem?_eq_some_iff.1 row).1
  by_cases here : i = k
  · subst here
    obtain ⟨coefficients, comparison, bound⟩ := c
    unfold slackOf? at slack
    rw [row] at slack
    cases comparison with
    | atMost =>
      cases slack
      rw [getD_unitVector inside, if_pos rfl]
      rfl
    | atLeast =>
      cases slack
      rw [getD_scale, getD_unitVector inside, if_pos rfl]
      rfl
    | equal => cases slack
  · have nothing : column.getD i 0 = 0 := by
      unfold slackOf? at slack
      split at slack
      · cases slack
        rw [getD_unitVector inside, if_neg here]
      · cases slack
        rw [getD_scale, getD_unitVector inside, if_neg here, mul_zero]
      · cases slack
    rw [nothing]
    cases c.comparison <;> decide

/-- A sum with natural numbers lies on the side that all its entries lie on. -/
theorem holds_dot {comparison : Comparison} {entries w : List Int}
    (sides : ∀ e ∈ entries, comparison.holds (-e) 0 = true) (natural : ∀ v ∈ w, 0 ≤ v) :
    comparison.holds (-(dot entries w)) 0 = true := by
  induction entries generalizing w with
  | nil =>
    rw [Counters.nil_dot]
    cases comparison <;> rfl
  | cons e entries ih =>
    cases w with
    | nil =>
      rw [Counters.dot_nil]
      cases comparison <;> rfl
    | cons v w =>
      obtain ⟨side, sides⟩ := List.forall_mem_cons.1 sides
      obtain ⟨first, natural⟩ := List.forall_mem_cons.1 natural
      have rest := ih sides natural
      rw [Counters.dot_cons]
      cases comparison with
      | atMost | atLeast | equal =>
        have side := of_decide_eq_true side
        have rest := of_decide_eq_true rest
        exact decide_eq_true (by nlinarith)

/-- A value that falls short of the bound by what is left over compares well. -/
theorem holds_of_add_eq {comparison : Comparison} {value left bound : Int}
    (side : comparison.holds (-left) 0 = true) (sum : value + left = bound) :
    comparison.holds value bound = true := by
  cases comparison with
  | atMost | atLeast | equal =>
    have side := of_decide_eq_true side
    exact decide_eq_true (by omega)

/-- The first part of a solution of the equations satisfies the constraints. -/
theorem holds_of_solves {w : List Int}
    (solves : Solves ((List.range x.length).map (columnOf constraints) ++
        (List.range constraints.length).filterMap (slackOf? constraints))
      (constraints.map Constraint.bound) (x ++ w)) :
    ∀ c ∈ constraints, c.holds x = true := by
  intro c mem
  obtain ⟨i, inside, rfl⟩ := List.mem_iff_getElem.1 mem
  have row : constraints[i]? = some constraints[i] := List.getElem?_eq_getElem inside
  have columnWidths := length_of_mem_columns constraints x.length
  have slackWidths := length_of_mem_slacks constraints
  have sum := congrArg (fun v => v.getD i 0) solves.sum
  simp only [List.length_map] at sum
  rw [combine_append (by simp) slackWidths, getD_add (by
      rw [length_combine _ columnWidths, length_combine _ slackWidths]),
    getD_combine_columns row, getD_combine _ slackWidths] at sum
  refine holds_of_add_eq (holds_dot ?_ ?_) (sum.trans ?_)
  · intro e entry
    obtain ⟨column, found, rfl⟩ := List.mem_map.1 entry
    obtain ⟨k, -, slack⟩ := List.mem_filterMap.1 found
    exact holds_slack row slack
  · exact fun v later => Counters.isNonneg_iff.1 solves.nonneg v (List.mem_append_right _ later)
  · simp [List.getD_eq_getElem?_getD, row]

/-- The natural numbers that are found satisfy all constraints. -/
theorem isModel_of_naturalModel? (found : naturalModel? n constraints = some x) :
    isModel n constraints [] x = true := by
  simp only [naturalModel?, naturalSolution?, Option.map_eq_some_iff] at found
  obtain ⟨y, solved, rfl⟩ := found
  have solves := solves_of_solveWithin rfl (fun c mem => by
    rw [List.length_map]
    rcases List.mem_append.1 mem with mem | mem
    · exact length_of_mem_columns constraints n c mem
    · exact length_of_mem_slacks constraints c mem) solved
  have length : (y.take n).length = n := by
    rw [List.length_take, solves.width]
    simp
  refine isModel_iff.2 ⟨length, Counters.isNonneg_iff.2 fun v mem => ?_, ?_, by simp⟩
  · exact Counters.isNonneg_iff.1 solves.nonneg v (List.mem_of_mem_take mem)
  · refine holds_of_solves (w := y.drop n) ?_
    rwa [length, List.take_append_drop]

/-! ## Clauses -/

/-- What is found with one of the choices is found with more constraints. -/
theorem exists_of_splitOver {solve : List Constraint → Option (List Int)}
    {choices : List Constraint} (found : splitOver solve choices constraints = some x) :
    ∃ choice ∈ choices, ∃ more, constraints ⊆ more ∧ solve (choice :: more) = some x := by
  induction choices generalizing constraints with
  | nil => cases found
  | cons choice choices ih =>
    unfold splitOver at found
    split at found
    · rename_i here
      exact ⟨choice, List.mem_cons_self, constraints, List.Subset.refl _, here.trans found⟩
    · obtain ⟨other, mem, more, grows, solved⟩ := ih found
      exact ⟨other, List.mem_cons_of_mem _ mem, more,
        fun c inside => grows (List.mem_append_right _ inside), solved⟩

/-- The thorough search finds models. -/
theorem isModel_of_modelWithin {left : Nat} (size : clauses.length = left)
    (found : modelWithin n left clauses constraints = some x) :
    isModel n constraints clauses x = true := by
  induction left generalizing clauses constraints with
  | zero =>
    obtain rfl := List.length_eq_zero_iff.1 size
    exact isModel_of_naturalModel? found
  | succ left ih =>
    simp only [modelWithin] at found
    split at found
    · cases found
    · rename_i y solved
      split at found
      · rename_i all
        cases found
        obtain ⟨length, nonneg, holds, -⟩ := isModel_iff.1 (isModel_of_naturalModel? solved)
        refine isModel_iff.2 ⟨length, nonneg, holds, fun clause mem => ?_⟩
        simpa using List.findIdx?_eq_none_iff.1 all clause mem
      · rename_i k violated
        have inside : k < clauses.length := (List.findIdx?_eq_some_iff_findIdx_eq.1 violated).1
        obtain ⟨choice, mem, more, grows, solved⟩ := exists_of_splitOver found
        obtain ⟨length, nonneg, holds, others⟩ := isModel_iff.1
          (ih (by rw [List.length_eraseIdx_of_lt inside, size]; rfl) solved)
        refine isModel_iff.2 ⟨length, nonneg,
          fun c old => holds c (List.mem_cons_of_mem _ (grows old)), fun clause old => ?_⟩
        rcases mem_getD_or_eraseIdx (d := []) inside old with rfl | other
        · exact List.any_eq_true.2 ⟨choice, mem, holds choice List.mem_cons_self⟩
        · exact others clause other

/-! ## Oracles -/

/-- An oracle that answers every question and gives only models that are ones. -/
structure Oracle.Exact (oracle : Oracle) : Prop where
  isModel : ∀ memory n constraints clauses x,
    (oracle.ask memory n constraints clauses).1 = .model x → isModel n constraints clauses x = true
  answers : ∀ memory n constraints clauses reason,
    (oracle.ask memory n constraints clauses).1 ≠ .unknown reason

/-- An oracle that answers every question refutes what has no model. -/
theorem Oracle.Exact.refutes {oracle : Oracle} (exact : oracle.Exact)
    (none : ∀ x, Linear.isModel n constraints [] x = false) : oracle.refutes n constraints = true := by
  cases answered : (oracle.ask oracle.blank n constraints []).1 with
  | refuted => exact decide_eq_true answered
  | unknown reason => exact absurd answered (exact.answers _ _ _ _ reason)
  | model x =>
    have model := exact.isModel _ _ _ _ x answered
    rw [none] at model
    cases model

/-- The library's own solver finds only models. -/
theorem isModel_of_recallModel? {memory : Memory}
    (found : (recallModel? memory n constraints clauses).1 = some x) :
    isModel n constraints clauses x = true := by
  have thorough : ∀ y, thoroughModel? n constraints clauses = some y →
      isModel n constraints clauses y = true := fun y solved => isModel_of_modelWithin rfl solved
  simp only [recallModel?] at found
  split at found
  · split at found
    · rename_i checked
      cases found
      exact checked
    · exact thorough x found
  · split at found
    · cases found
    · exact thorough x found
  · exact thorough x found

theorem exact_solver : solver.Exact where
  isModel memory n constraints clauses x answered := by
    unfold solver at answered
    dsimp only at answered
    split at answered
    · rename_i found
      cases answered
      exact isModel_of_recallModel? (congrArg Prod.fst found)
    · cases answered
  answers memory n constraints clauses reason answered := by
    unfold solver at answered
    dsimp only at answered
    split at answered <;> cases answered

/-- Asking for more first does not make an oracle less exact. -/
theorem Oracle.Exact.preferring {oracle : Oracle} (exact : oracle.Exact)
    (further : List Constraint) : (oracle.preferring further).Exact where
  isModel := by
    rintro ⟨first, second⟩ n constraints clauses x answered
    unfold Oracle.preferring at answered
    dsimp only at answered
    split at answered
    · rename_i found
      cases answered
      obtain ⟨length, nonneg, holds, choices⟩ :=
        isModel_iff.1 (exact.isModel _ _ _ _ _ (congrArg Prod.fst found))
      exact isModel_iff.2
        ⟨length, nonneg, fun c mem => holds c (List.mem_append_left _ mem), choices⟩
    · exact exact.isModel _ _ _ _ _ answered
  answers := by
    rintro ⟨first, second⟩ n constraints clauses reason answered
    unfold Oracle.preferring at answered
    dsimp only at answered
    split at answered
    · cases answered
    · exact exact.answers _ _ _ _ _ answered

end ZeroRun.Linear
