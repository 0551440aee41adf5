import Mathlib
import ZeroRun.Proofs.Grammar.LeftRecursion

/-! Derivation steps. In a grammar that is not left-recursive unfolding comes to an end and finds
all ways to emit the next terminal, and a word is emitted terminal by terminal. -/
namespace ZeroRun.Grammar
open Relation (ReflTransGen)

variable {τ : Type} [DecidableEq τ] {g : Grammar τ} {state rest : DerivationState τ}
  {word : List τ} {t : τ}

theorem growUnfoldings_eq (g : Grammar τ) (levels : Nat) (found latest : List (DerivationState τ)) :
    g.growUnfoldings levels found latest = spreadFrom g.unfold levels found latest := by
  induction levels generalizing found latest with
  | zero => rfl
  | succ levels ih =>
    have same : (distinct (latest.flatMap g.unfold)).filter (· ∉ found) =
        newFrom g.unfold found latest := List.filter_congr fun _ _ => decide_eq_decide.2 Iff.rfl
    rw [growUnfoldings, spreadFrom_succ, same]
    split
    · rename_i nothing
      rw [if_pos nothing]
    · rename_i some
      rw [if_neg some, ih]

omit [DecidableEq τ] in
theorem cost_le_levelBound (g : Grammar τ) (state : DerivationState τ) :
    g.cost state ≤ g.levelBound state := by
  have smaller : 3 ^ g.rules.length ≤ 3 ^ (g.rules.length + 1) :=
    Nat.pow_le_pow_right (by decide) (Nat.le_succ _)
  exact (g.cost_le state).trans (Nat.mul_le_mul (Nat.le_succ _) smaller)

/-- Unfolding comes to an end within the levels, so more of them find nothing. -/
theorem unfoldings_eq (proper : g.Proper) (state : DerivationState τ) (more : Nat) :
    g.unfoldings state = spread g.unfold (g.levelBound state + more) [state] := by
  have falls : ∀ x, ∀ y ∈ g.unfold x, g.cost y < g.cost x := fun x y step =>
    Unfolds.cost_lt step proper
  rw [unfoldings, growUnfoldings_eq, spread, spreadFrom_add falls]
  simpa using g.cost_le_levelBound state

theorem mem_unfoldings (proper : g.Proper) {unfolded : DerivationState τ} :
    unfolded ∈ g.unfoldings state ↔ ReflTransGen g.Unfolds state unfolded := by
  have falls : ∀ x, ∀ y ∈ g.unfold x, g.cost y < g.cost x := fun x y step =>
    Unfolds.cost_lt step proper
  rw [unfoldings_eq proper state 0,
    mem_spread_of_falls falls (by simpa using g.cost_le_levelBound state)]
  simp only [List.mem_singleton, exists_eq_left]
  rfl

theorem completes_iff (proper : g.Proper) : g.completes state = true ↔ g.Derives state [] := by
  simp only [completes, List.any_eq_true, List.isEmpty_iff, mem_unfoldings proper]
  constructor
  · rintro ⟨_, path, rfl⟩
    exact derives_of_leads path .nil
  · intro derives
    exact ⟨[], derives.leads_nil, rfl⟩

omit [DecidableEq τ] in
theorem readyStep?_eq_some_iff {step : Step τ} :
    readyStep? state = some step ↔ state = .terminal step.1 :: step.2 := by
  cases state with
  | nil => simp [readyStep?]
  | cons symbol tail =>
    cases symbol with
    | nonterminal name => simp [readyStep?]
    | terminal t => simp [readyStep?, Prod.ext_iff]

theorem mem_steps (proper : g.Proper) :
    (t, rest) ∈ g.steps state ↔ ReflTransGen g.Unfolds state (.terminal t :: rest) := by
  rw [steps, List.mem_mergeSort, List.mem_filterMap, ← mem_unfoldings proper]
  simp [readyStep?_eq_some_iff]

/-- A word is emitted terminal by terminal. -/
theorem derives_cons_iff (proper : g.Proper) :
    g.Derives state (t :: word) ↔ ∃ rest, (t, rest) ∈ g.steps state ∧ g.Derives rest word := by
  simp only [mem_steps proper]
  constructor
  · intro derives
    obtain ⟨ready, path, stops, derives⟩ := derives.leads
    cases derives with
    | emit _ tail => exact ⟨_, path, tail⟩
    | unfold => exact absurd stops id
  · rintro ⟨rest, path, derives⟩
    exact derives_of_leads path (.emit t derives)

end ZeroRun.Grammar
