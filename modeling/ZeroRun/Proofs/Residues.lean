import Mathlib
import ZeroRun.Proofs.Counters
import ZeroRun.Residues

/-! Residues computed effect by effect are the residues of the sum of the effects. They are zero
exactly if the modulus divides every counter of the sum, so a sum of zero is never rejected. -/
namespace ZeroRun

namespace Counters

/-- The sum of several vectors, added to a first one. -/
def sumFrom (first : Counters) (vectors : List Counters) : Counters :=
  vectors.foldl add first

theorem length_sumFrom {n : Nat} {first : Counters} {vectors : List Counters}
    (width : first.length = n) (widths : ∀ v ∈ vectors, v.length = n) :
    (sumFrom first vectors).length = n := by
  induction vectors generalizing first with
  | nil => exact width
  | cons v vectors ih =>
    exact ih (by simp [width, widths v]) fun w mem => widths w (by simp [mem])

theorem sumFrom_add (first second : Counters) (vectors : List Counters) :
    sumFrom (first.add second) vectors = first.add (sumFrom second vectors) := by
  induction vectors generalizing second with
  | nil => rfl
  | cons v vectors ih =>
    rw [sumFrom, List.foldl_cons, ← sumFrom, add_assoc, ih]
    rfl

end Counters

namespace ResidueSpace
variable (space : ResidueSpace)

theorem fmod_eq (x : Int) : x.fmod space.modulus = x % space.modulus :=
  Int.fmod_eq_emod_of_nonneg x (by have := space.two_le; omega)

/-- A number that can be a residue. -/
def Admits (x : Int) : Prop :=
  0 ≤ x ∧ x < space.modulus

theorem admits_fmod (x : Int) : space.Admits (x.fmod space.modulus) := by
  have positive : 0 < space.modulus := by have := space.two_le; omega
  rw [fmod_eq]
  exact ⟨Int.emod_nonneg x positive.ne', Int.emod_lt_of_pos x positive⟩

theorem residue_residue_add (a b : Counters) :
    space.residue ((space.residue a).add b) = space.residue (a.add b) := by
  induction a generalizing b with
  | nil => simp [residue]
  | cons x a ih =>
    cases b with
    | nil => simp [residue]
    | cons y b =>
      simp only [residue, List.map_cons, Counters.add_cons, fmod_eq] at ih ⊢
      rw [ih, Int.emod_add_emod]

theorem residue_zero (n : Nat) : space.residue (Counters.zero n) = Counters.zero n := by
  simp [residue, Counters.zero, fmod_eq]

theorem length_start : space.start.length = space.dimension :=
  Counters.length_zero _

/-- The residues after several effects are those of their sum. -/
theorem run_eq (effects : List Counters) :
    space.run effects = space.residue (Counters.sumFrom space.start effects) := by
  suffices general : ∀ sum, effects.foldl space.step (space.residue sum) =
      space.residue (Counters.sumFrom sum effects) by
    rw [← general, start, residue_zero]
    rfl
  induction effects with
  | nil => exact fun sum => rfl
  | cons effect effects ih =>
    intro sum
    rw [List.foldl_cons, step, residue_residue_add, ih]
    rfl

/-- Residues do not reject effects exactly if the modulus divides every counter of their sum. -/
theorem rejects_eq_false_iff {effects : List Counters}
    (widths : ∀ e ∈ effects, e.length = space.dimension) :
    space.rejects effects = false ↔
      ∀ x ∈ Counters.sumFrom space.start effects, space.modulus ∣ x := by
  have width := Counters.length_sumFrom space.length_start widths
  have zero : space.residue (Counters.sumFrom space.start effects) = space.start ↔
      ∀ x ∈ Counters.sumFrom space.start effects, x.fmod space.modulus = 0 := by
    conv_lhs => rhs; rw [start]
    rw [Counters.zero, List.eq_replicate_iff, residue, List.length_map, width]
    simp
  rw [rejects, isUnbalanced, run_eq, decide_eq_false_iff_not, not_not, zero]
  simp only [fmod_eq, Int.dvd_iff_emod_eq_zero]

/-- Residues are a vector of the right length with entries below the modulus. -/
theorem run_mem {effects : List Counters} (widths : ∀ e ∈ effects, e.length = space.dimension) :
    (space.run effects).length = space.dimension ∧
      ∀ x ∈ space.run effects, 0 ≤ x ∧ x < space.modulus := by
  have width := Counters.length_sumFrom space.length_start widths
  rw [run_eq, residue, List.length_map]
  refine ⟨width, fun x mem => ?_⟩
  obtain ⟨y, -, rfl⟩ := List.mem_map.1 mem
  exact space.admits_fmod y

end ResidueSpace
end ZeroRun
