import Mathlib
import ZeroRun.Proofs.Refine.Round

/-! How large the numbers get that a query writes. The counters of a candidate stay below its length
times the largest effect, and so do the numbers in the questions about it. The modulus that it leads
to stays below the product of two such numbers. So a query that goes through short candidates and
starts at a modulus with few digits can write all of its numbers. -/
namespace ZeroRun

theorem Decimal.isWritable_of_le {m : Int} {n : Nat} (le : m.natAbs ≤ n)
    (short : isWritable n = true) : isWritable m = true :=
  decide_eq_true (le.trans_lt (of_decide_eq_true short))

/-- If the peak has reached the modulus, the next modulus is at most the product of the peak and the
number behind it. -/
theorem ModulusPolicy.next_le (policy : ModulusPolicy) {modulus peak : Int} (two_le : 2 ≤ modulus)
    (reached : modulus ≤ peak) : policy.next modulus peak ≤ peak * (peak + 1) := by
  have double : modulus * 2 ≤ peak * (peak + 1) := by nlinarith
  cases policy with
  | double => exact double
  | increment => simp only [next]; nlinarith
  | lcm =>
    simp only [next]
    split
    · calc (Int.lcm modulus (peak + 1) : Int) ≤ modulus * (peak + 1) :=
          Int.le_of_dvd (by nlinarith)
            (Int.coe_lcm_dvd (Dvd.intro _ rfl) (Dvd.intro_left _ rfl))
        _ ≤ peak * (peak + 1) := by gcongr; omega
    · exact double

namespace CounterSystem
variable {sys : CounterSystem} {word : Word}

/-- No counter of a walk up to a length gets larger. -/
def counterBound (sys : CounterSystem) (length : Nat) : Nat :=
  length * sys.largestEffect

/-- No number that a query over candidates up to a length comes to write is larger, but for the
modulus that it starts with. -/
def numberBound (sys : CounterSystem) (length : Nat) : Nat :=
  sys.counterBound length * (sys.counterBound length + 1)

theorem counterBound_le_numberBound (length : Nat) :
    sys.counterBound length ≤ sys.numberBound length :=
  Nat.le_mul_of_pos_right _ (Nat.succ_pos _)

/-- The numbers in the question about a pattern that a word goes round are no larger than its
counters can get. -/
theorem canAsk_of_circles {pattern : LoopPattern} (known : sys.Known word)
    (circles : pattern.Circles word)
    (short : Decimal.isWritable (sys.counterBound word.length) = true) :
    sys.canAsk pattern = true := by
  obtain ⟨rounds, positive, rfl⟩ := circles
  obtain ⟨stemmed, tail⟩ := Known.append_iff.1 known
  obtain ⟨stem, around⟩ := Known.append_iff.1 stemmed
  have cycle : sys.Known pattern.cycle := by
    obtain ⟨rounds, rfl⟩ := Nat.exists_eq_add_of_le' positive
    rw [LoopPattern.rounds, List.replicate_succ, List.flatten_cons] at around
    exact (Known.append_iff.1 around).1
  have longer : pattern.stem.length + pattern.tail.length + pattern.cycle.length ≤
      (pattern.stem ++ pattern.rounds rounds ++ pattern.tail).length := by
    have := Nat.le_mul_of_pos_left pattern.cycle.length positive
    simp [LoopPattern.rounds]
    omega
  have bound := Nat.mul_le_mul_right sys.largestEffect longer
  rw [Nat.add_mul, Nat.add_mul] at bound
  have base := Counters.peak_add_le (sys.total pattern.stem) (sys.total pattern.tail)
  have first := peak_total_le stem
  have last := peak_total_le tail
  have middle := peak_total_le cycle
  rw [canAsk, balanceQuestion_eq stem cycle tail]
  refine List.all_eq_true.2 fun constraint mem => ?_
  obtain ⟨⟨b, c⟩, inside, rfl⟩ := List.mem_map.1 mem
  obtain ⟨left, right⟩ := List.of_mem_zip inside
  have small := Counters.peak_le_iff.1 le_rfl b left
  have small' := Counters.peak_le_iff.1 le_rfl c right
  have writable : ∀ n : Int, n.natAbs ≤ sys.counterBound
      (pattern.stem ++ pattern.rounds rounds ++ pattern.tail).length →
      Decimal.isWritable n = true := fun n le => Decimal.isWritable_of_le le short
  unfold counterBound at writable
  simp [Constraint.isWritable, writable c (by omega), writable (-b) (by omega)]

end CounterSystem

/-- The walk goes round every pattern that is asked about until it has a finding. -/
theorem Walk.circles_of_mem_asked {sys : CounterSystem} {walk : Walk sys} {modulus : Int}
    {finding : Finding} {pattern : LoopPattern} (told : finding.Tells walk modulus)
    (mem : pattern ∈ walk.asked finding) : pattern.Circles walk.word := by
  have factored : ∀ other ∈ walk.factorizations, other.Circles walk.word := by
    intro other mem
    obtain ⟨⟨i, j⟩, -, factor⟩ := List.mem_filterMap.1 mem
    exact (circles_of_factorAt? factor).1
  cases finding with
  | genuine | negativeExcursion _ | guardViolation _ => cases mem
  | inconclusive =>
    rw [asked] at mem
    split at mem
    · cases mem
    · exact factored pattern mem
  | wrapOnlyLoop other =>
    rcases List.mem_append.1 mem with before | last
    · exact factored pattern (List.takeWhile_subset _ before)
    · obtain rfl := List.mem_singleton.1 last
      exact told.1

namespace Solver
variable {sys : CounterSystem} {solver : Solver sys} {session : Session} {length : Nat}

/-- The modulus that a short candidate leads to can be written. -/
theorem isWritable_next {modulus : Int} {walk : Walk sys} (policy : ModulusPolicy)
    (two_le : 2 ≤ modulus) (reached : modulus ≤ walk.peak) (short : walk.word.length ≤ length)
    (bound : Decimal.isWritable (sys.numberBound length) = true) :
    Decimal.isWritable (policy.next modulus walk.peak) = true := by
  have low : walk.peak ≤ sys.counterBound length :=
    walk.peak_le.trans (Nat.mul_le_mul_right _ short)
  have product : (walk.peak * (walk.peak + 1) : Int) ≤ (sys.numberBound length : Int) := by
    exact_mod_cast Nat.mul_le_mul low (Nat.succ_le_succ low)
  have next_le := policy.next_le two_le reached
  have next_gt := policy.lt_next two_le walk.peak
  exact Decimal.isWritable_of_le (by omega) bound

/-- As long as candidates are short, the next round can write all of its numbers. -/
theorem not_overlong (two_le : 2 ≤ session.modulus)
    (modulus : Decimal.isWritable session.modulus = true)
    (short : ∀ word, solver.Finds session word → word.length ≤ length)
    (bound : Decimal.isWritable (sys.numberBound length) = true) : ¬ solver.Overlong session := by
  intro overlong
  cases overlong with
  | modulus long => simp [modulus] at long
  | question walk finds finding classified pattern asked long =>
    obtain ⟨other, same, told, -⟩ :=
      walk.classify_tells solver.loopOracle two_le finds.candidate.divides
    obtain rfl := Except.ok.inj (same.symm.trans classified)
    have counters : sys.counterBound walk.word.length ≤ sys.numberBound length :=
      (Nat.mul_le_mul_right _ (short walk.word finds)).trans
        (CounterSystem.counterBound_le_numberBound length)
    rw [CounterSystem.canAsk_of_circles walk.known_word (Walk.circles_of_mem_asked told asked)
      (Decimal.isWritable_of_le counters bound)] at long
    cases long
  | raised walk finds classified long =>
    obtain ⟨other, same, told, -⟩ :=
      walk.classify_tells solver.loopOracle two_le finds.candidate.divides
    obtain rfl := Except.ok.inj (same.symm.trans classified)
    rw [isWritable_next _ two_le told (short walk.word finds) bound] at long
    cases long

end Solver
end ZeroRun
