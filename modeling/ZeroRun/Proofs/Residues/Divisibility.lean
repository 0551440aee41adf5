import Mathlib
import ZeroRun.Proofs.Linear.Natural
import ZeroRun.Proofs.Residues

/-! Residues of a sum at different moduli. Effect by effect, the residues of the sum come out,
whatever the signs of the effects. Those at a multiple of a modulus determine those at the modulus,
so what one modulus rejects all its multiples reject. A sum is zero exactly if no modulus rejects
it. -/
namespace ZeroRun

/-- The sums of the entries, counter by counter. -/
def Counters.columnSums (dimension : Nat) (vectors : List Counters) : Counters :=
  (List.range dimension).map fun counter => (vectors.map (·.getD counter 0)).sum

namespace Counters
variable {n : Nat} {first : Counters} {vectors : List Counters}

theorem getD_sumFrom (width : first.length = n) (widths : ∀ v ∈ vectors, v.length = n)
    (counter : Nat) :
    (sumFrom first vectors).getD counter 0 =
      first.getD counter 0 + (vectors.map (·.getD counter 0)).sum := by
  induction vectors generalizing first with
  | nil => simp [sumFrom]
  | cons v vectors ih =>
    obtain ⟨fits, widths⟩ := List.forall_mem_cons.1 widths
    have further : (first.add v).length = n := by simp [width, fits]
    have rest := ih further widths
    rw [Linear.getD_add (width.trans fits.symm)] at rest
    rw [List.map_cons, List.sum_cons, ← Int.add_assoc, ← rest]
    rfl

/-- Adding the vectors one by one adds them counter by counter. -/
theorem sumFrom_zero (widths : ∀ v ∈ vectors, v.length = n) :
    sumFrom (zero n) vectors = columnSums n vectors := by
  have width := length_sumFrom (length_zero n) widths
  apply List.ext_getElem
  · rw [width]
    simp [columnSums]
  · intro counter left right
    have entry := getD_sumFrom (length_zero n) widths counter
    rw [Linear.getD_zero, Int.zero_add, List.getD_eq_getElem _ _ left] at entry
    simp [columnSums, entry]

theorem columnSums_eq_zero_iff :
    columnSums n vectors = zero n ↔ ∀ x ∈ columnSums n vectors, x = 0 := by
  rw [zero, List.eq_replicate_iff]
  exact and_iff_right (by simp [columnSums])

end Counters

namespace ResidueSpace
variable (space : ResidueSpace) {finer : ResidueSpace} {effects : List Counters}

theorem run_eq_residue_columnSums (widths : ∀ e ∈ effects, e.length = space.dimension) :
    space.run effects = space.residue (Counters.columnSums space.dimension effects) := by
  rw [run_eq, ← Counters.sumFrom_zero widths]
  rfl

theorem rejects_iff (widths : ∀ e ∈ effects, e.length = space.dimension) :
    space.rejects effects = true ↔
      ∃ x ∈ Counters.columnSums space.dimension effects, ¬ space.modulus ∣ x := by
  rw [← Counters.sumFrom_zero widths, ← Bool.not_eq_false, space.rejects_eq_false_iff widths]
  push Not
  rfl

/-- The residues at a multiple of the modulus determine those at the modulus. -/
theorem residue_residue_of_dvd (multiple : space.modulus ∣ finer.modulus) (v : Counters) :
    space.residue (finer.residue v) = space.residue v := by
  rw [residue, residue, residue, List.map_map]
  refine List.map_congr_left fun x _ => ?_
  rw [Function.comp_apply, fmod_eq, fmod_eq, fmod_eq, Int.emod_emod_of_dvd _ multiple]

theorem residue_run_of_dvd (same : finer.dimension = space.dimension)
    (multiple : space.modulus ∣ finer.modulus) (effects : List Counters) :
    space.residue (finer.run effects) = space.run effects := by
  rw [run_eq, run_eq, residue_residue_of_dvd space multiple, start, start, same]

/-- Sums that no modulus rejects are zero, since one above them divides nothing else. -/
theorem exists_rejects_of_ne_zero (widths : ∀ e ∈ effects, e.length = space.dimension)
    {x : Int} (mem : x ∈ Counters.columnSums space.dimension effects) (nonzero : x ≠ 0) :
    ∃ other : ResidueSpace, other.dimension = space.dimension ∧ other.rejects effects = true := by
  have two_le : 2 ≤ |x| + 2 := le_add_of_nonneg_left (abs_nonneg x)
  have above : ¬ |x| + 2 ∣ x := fun divides =>
    nonzero (Int.eq_zero_of_abs_lt_dvd divides (by omega))
  exact ⟨⟨|x| + 2, space.dimension, two_le⟩, rfl,
    (rejects_iff ⟨|x| + 2, space.dimension, two_le⟩ widths).2 ⟨x, mem, above⟩⟩

theorem balanced_iff_never_rejected (widths : ∀ e ∈ effects, e.length = space.dimension) :
    Counters.columnSums space.dimension effects = Counters.zero space.dimension ↔
      ∀ other : ResidueSpace, other.dimension = space.dimension →
        other.rejects effects = false := by
  rw [Counters.columnSums_eq_zero_iff]
  constructor
  · intro balanced other same
    rw [← Bool.not_eq_true, other.rejects_iff (same ▸ widths), same]
    rintro ⟨x, mem, unequal⟩
    rw [balanced x mem] at unequal
    exact unequal (dvd_zero _)
  · intro never x mem
    by_contra nonzero
    obtain ⟨other, same, rejected⟩ := space.exists_rejects_of_ne_zero widths mem nonzero
    rw [never other same] at rejected
    cases rejected

/-- The residues after several effects are those of their sum, counter by counter, so the effects
are rejected exactly if the modulus does not divide the sum of some counter. Reduced once more, the
residues at a multiple of the modulus are those at the modulus, and what the modulus rejects the
multiple rejects. Exactly the effects with sum zero are rejected at no modulus. -/
theorem run_refines_along_divisibility (space : ResidueSpace) (effects : List Counters)
    (widths : ∀ e ∈ effects, e.length = space.dimension) :
    space.run effects = space.residue (Counters.columnSums space.dimension effects) ∧
    (space.rejects effects = true ↔
      ∃ x ∈ Counters.columnSums space.dimension effects, ¬ space.modulus ∣ x) ∧
    (∀ finer : ResidueSpace, finer.dimension = space.dimension →
      space.modulus ∣ finer.modulus →
        space.residue (finer.run effects) = space.run effects ∧
          (space.rejects effects = true → finer.rejects effects = true)) ∧
    (Counters.columnSums space.dimension effects = Counters.zero space.dimension ↔
      ∀ other : ResidueSpace, other.dimension = space.dimension →
        other.rejects effects = false) := by
  refine ⟨space.run_eq_residue_columnSums widths, space.rejects_iff widths,
    fun finer same multiple => ⟨space.residue_run_of_dvd same multiple effects, fun rejected => ?_⟩,
    space.balanced_iff_never_rejected widths⟩
  obtain ⟨x, mem, odd⟩ := (space.rejects_iff widths).1 rejected
  apply (finer.rejects_iff (same ▸ widths)).2
  rw [same]
  exact ⟨x, mem, fun divides => odd (multiple.trans divides)⟩

/-- Two counters modulo a number. -/
def pairsModulo (modulus : Int) (two_le : 2 ≤ modulus) : ResidueSpace :=
  ⟨modulus, 2, two_le⟩

/-- The first counter goes down and up. The sum is odd in the second one, so the effects are
rejected modulo two, and then modulo four. -/
theorem run_refines_along_divisibility_pairs :
    (pairsModulo 2 le_rfl).run [[-7, 3], [5, 0]] = [0, 1] ∧
      (pairsModulo 2 le_rfl).rejects [[-7, 3], [5, 0]] = true ∧
      (pairsModulo 4 (by omega)).rejects [[-7, 3], [5, 0]] = true := by
  obtain ⟨residues, rejected, multiples, -⟩ :=
    run_refines_along_divisibility (pairsModulo 2 le_rfl) [[-7, 3], [5, 0]] (by simp [pairsModulo])
  have odd := rejected.2 ⟨3, .tail _ (.head _), by simp [pairsModulo]⟩
  exact ⟨residues, odd, (multiples (pairsModulo 4 _) rfl ⟨2, rfl⟩).2 odd⟩

end ResidueSpace
end ZeroRun
