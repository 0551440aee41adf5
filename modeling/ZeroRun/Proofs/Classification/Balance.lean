import Mathlib
import ZeroRun.Proofs.Classification
import ZeroRun.Proofs.Linear.Exact

/-! Whether a loop pattern can be balanced. The words of a pattern differ only in how often they go
round the cycle, and every round adds the same to the counters. So one unknown number tells the sums
of all words, and an oracle that decides equations for this number decides whether some word of the
pattern brings all counters back to zero. -/
namespace ZeroRun

/-- The oracle decides the equations for a number of rounds: it refutes those that no number
satisfies. -/
def Linear.Oracle.DecidesRounds (oracle : Linear.Oracle) : Prop :=
  ∀ base cycle : Counters,
    (∀ n : Nat, (base.add (Counters.scale n cycle)).isZero = false) →
      oracle.refutes 1 (balanceConstraints base cycle) = true

theorem Linear.Oracle.Exact.decidesRounds {oracle : Linear.Oracle} (exact : oracle.Exact) :
    oracle.DecidesRounds := by
  intro base cycle none
  apply exact.refutes
  intro x
  rw [Bool.eq_false_iff]
  intro model
  obtain ⟨n, rfl, balanced⟩ := isModel_balanceConstraints_iff.1 model
  rw [none n] at balanced
  cases balanced

/-- An oracle that decides the equations refutes exactly those that no number satisfies. -/
theorem Linear.Oracle.DecidesRounds.refutes_iff {oracle : Linear.Oracle}
    (decides : oracle.DecidesRounds) {base cycle : Counters} :
    oracle.refutes 1 (balanceConstraints base cycle) = true ↔
      ∀ n : Nat, (base.add (Counters.scale n cycle)).isZero = false := by
  constructor
  · exact isZero_eq_false_of_refutes
  · exact decides base cycle

namespace CounterSystem
variable {sys : CounterSystem} {pattern : LoopPattern} {word : Word}

theorem Known.sumEffects_eq_zero_iff (known : sys.Known word) :
    sys.sumEffects word = .ok sys.zero ↔ (sys.total word).isZero = true := by
  rw [sumEffects_eq known, Except.ok.injEq, Counters.isZero_iff, known.length_total]
  rfl

/-- Some word of a pattern brings all counters back to zero exactly if some number of rounds
does. -/
theorem exists_balanced_iff (stem : sys.Known pattern.stem) (cycle : sys.Known pattern.cycle)
    (tail : sys.Known pattern.tail) :
    (∃ word, pattern.isMember word = true ∧ sys.sumEffects word = .ok sys.zero) ↔
      ∃ n : Nat, (((sys.total pattern.stem).add (sys.total pattern.tail)).add
        (Counters.scale n (sys.total pattern.cycle))).isZero = true := by
  have known : ∀ n, sys.Known (pattern.stem ++ pattern.rounds n ++ pattern.tail) := fun n =>
    Known.append_iff.2 ⟨Known.append_iff.2 ⟨stem, cycle.rounds n⟩, tail⟩
  simp only [LoopPattern.isMember_iff, ← total_of_holds stem cycle]
  constructor
  · rintro ⟨word, ⟨n, rfl⟩, balanced⟩
    exact ⟨n, (known n).sumEffects_eq_zero_iff.1 balanced⟩
  · rintro ⟨n, balanced⟩
    exact ⟨_, ⟨n, rfl⟩, (known n).sumEffects_eq_zero_iff.2 balanced⟩

/-- With an oracle that decides equations for a number of rounds, a pattern of known transitions can
be balanced exactly if it recognises some word that brings all counters back to zero. -/
theorem canBalance_iff (oracle : Linear.Oracle) (decides : oracle.DecidesRounds)
    (sys : CounterSystem) (pattern : LoopPattern)
    (known : sys.Known (pattern.stem ++ pattern.cycle ++ pattern.tail)) :
    ∃ answer, sys.canBalance pattern oracle = .ok answer ∧
      (answer = true ↔
        ∃ word, pattern.isMember word = true ∧ sys.sumEffects word = .ok sys.zero) := by
  obtain ⟨front, tail⟩ := Known.append_iff.1 known
  obtain ⟨stem, cycle⟩ := Known.append_iff.1 front
  refine ⟨_, canBalance_eq oracle stem cycle tail, ?_⟩
  rw [exists_balanced_iff stem cycle tail, Bool.not_eq_true', Bool.eq_false_iff, ne_eq,
    decides.refutes_iff, not_forall]
  simp only [Bool.not_eq_false]

/-- One round down makes up for the step up by two. After the step up by one, the sum stays odd. -/
theorem canBalance_evenLoop :
    evenLoop.canBalance ⟨[0], [2], [], List.cons_ne_nil _ _⟩ = .ok true ∧
      evenLoop.canBalance ⟨[], [2], [1], List.cons_ne_nil _ _⟩ = .ok false := by
  have nothing : evenLoop.Known [] := fun letter mem => absurd mem List.not_mem_nil
  have up : evenLoop.Known [0] := fun letter mem => ⟨0, _, List.mem_singleton.1 mem, rfl⟩
  have out : evenLoop.Known [1] := fun letter mem => ⟨1, _, List.mem_singleton.1 mem, rfl⟩
  have down : evenLoop.Known [2] := fun letter mem => ⟨2, _, List.mem_singleton.1 mem, rfl⟩
  have decides := Linear.exact_solver.decidesRounds
  constructor
  · obtain ⟨answer, ok, balanced⟩ := canBalance_iff Linear.solver decides evenLoop
      ⟨[0], [2], [], List.cons_ne_nil _ _⟩
      (Known.append_iff.2 ⟨Known.append_iff.2 ⟨up, down⟩, nothing⟩)
    rw [ok, balanced.2 ⟨[0, 2], LoopPattern.isMember_iff.2 ⟨1, rfl⟩, rfl⟩]
  · obtain ⟨answer, ok, balanced⟩ := canBalance_iff Linear.solver decides evenLoop
      ⟨[], [2], [1], List.cons_ne_nil _ _⟩
      (Known.append_iff.2 ⟨Known.append_iff.2 ⟨nothing, down⟩, out⟩)
    rw [exists_balanced_iff nothing down out] at balanced
    have odd : ¬ answer = true := by
      rw [balanced]
      rintro ⟨n, zero⟩
      have zero : 0 + 1 + (n : Int) * (0 + -2) = 0 :=
        of_decide_eq_true (List.all_eq_true.1 zero _ List.mem_cons_self)
      omega
    rw [ok, Bool.eq_false_iff.2 odd]

end CounterSystem
end ZeroRun
