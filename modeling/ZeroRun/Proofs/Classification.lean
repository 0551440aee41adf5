import Mathlib
import ZeroRun.Classification
import ZeroRun.Proofs.Exclusion.LoopPattern
import ZeroRun.Proofs.Linear.Refutation
import ZeroRun.Proofs.Replay

/-! What the finding on a walk says. A genuine walk leads from zero back to zero. A guard violation
or a negative excursion names the shortest stem that cannot be taken, with which no run begins. A
wrap-only loop names a pattern that the walk goes round and of which no word sums to zero, so no run
belongs to it. If nothing of this kind is found, some counter has reached the modulus. -/
namespace ZeroRun

/-! ## Factorizations -/

/-- The word belongs to the pattern and goes round its cycle at least once. -/
def LoopPattern.Circles (pattern : LoopPattern) (word : Word) : Prop :=
  ∃ k, 1 ≤ k ∧ word = pattern.stem ++ pattern.rounds k ++ pattern.tail

theorem LoopPattern.Circles.holds {pattern : LoopPattern} {word : Word}
    (circles : pattern.Circles word) : pattern.Holds word := by
  obtain ⟨k, -, spelled⟩ := circles
  exact ⟨k, spelled⟩

theorem rounds_append_drop {cycle : Word} (fuel : Nat) (word : Word) :
    (List.replicate (roundsOf cycle fuel word) cycle).flatten ++
      word.drop (roundsOf cycle fuel word * cycle.length) = word := by
  induction fuel generalizing word with
  | zero => simp [roundsOf]
  | succ fuel ih =>
    rw [roundsOf]
    split
    · rename_i begins
      obtain ⟨rest, rfl⟩ := List.isPrefixOf_iff_prefix.1 begins
      rw [List.drop_left, List.replicate_succ, List.flatten_cons, List.append_assoc, Nat.add_mul,
        Nat.one_mul, Nat.add_comm, ← List.drop_drop, List.drop_left, ih]
    · simp

theorem parts_of_factorAt? {word : Word} {i j : Nat} {pattern : LoopPattern}
    (factored : factorAt? word i j = some pattern) :
    pattern.stem = word.take i ∧ pattern.cycle = (word.take j).drop i ∧
      pattern.tail = afterRounds pattern.cycle (word.drop j) := by
  simp only [factorAt?] at factored
  split at factored
  · obtain rfl := Option.some.inj factored
    exact ⟨rfl, rfl, rfl⟩
  · cases factored

/-- A word goes round each of its factorizations, whose letters are letters of the word. -/
theorem circles_of_factorAt? {word : Word} {i j : Nat} {pattern : LoopPattern}
    (factored : factorAt? word i j = some pattern) :
    pattern.Circles word ∧ pattern.stem ⊆ word ∧ pattern.cycle ⊆ word ∧ pattern.tail ⊆ word := by
  obtain ⟨stem, cycle, tail⟩ := parts_of_factorAt? factored
  have order : i ≤ j := by
    by_contra beyond
    apply pattern.cycle_ne_nil
    rw [cycle, List.drop_eq_nil_iff, List.length_take]
    omega
  refine ⟨⟨roundsOf pattern.cycle (word.drop j).length (word.drop j) + 1, Nat.succ_pos _, ?_⟩,
    ?_, ?_, ?_⟩
  · have front : word.take i = (word.take j).take i := by
      rw [List.take_take, min_eq_left order]
    rw [LoopPattern.rounds, List.replicate_succ, List.flatten_cons, tail, afterRounds,
      List.append_assoc, List.append_assoc, rounds_append_drop, ← List.append_assoc, stem, cycle,
      front, List.take_append_drop, List.take_append_drop]
  · rw [stem]
    exact List.take_subset _ _
  · rw [cycle]
    exact fun x mem => List.take_subset _ _ (List.drop_subset _ _ mem)
  · rw [tail]
    exact fun x mem => List.drop_subset _ _ (List.drop_subset _ _ mem)

namespace Counters

theorem scale_succ (n : Nat) (a : Counters) :
    scale ((n + 1 : Nat) : Int) a = (scale n a).add a := by
  induction a with
  | nil => rfl
  | cons x a ih =>
    rw [scale_cons, scale_cons, add_cons, ih]
    congr 1
    push_cast
    ring

theorem zero_scale (a : Counters) : scale 0 a = zero a.length := by
  induction a with
  | nil => rfl
  | cons x a ih => simp [ih]

end Counters

/-- A number satisfies the constraints exactly if so many rounds bring all counters back to zero. -/
theorem holds_balanceConstraints_iff {base cycle : Counters} {n : Int} :
    (∀ c ∈ balanceConstraints base cycle, c.holds [n] = true) ↔
      (base.add (Counters.scale n cycle)).isZero = true := by
  induction base generalizing cycle with
  | nil => simp [balanceConstraints, Counters.isZero]
  | cons b base ih =>
    cases cycle with
    | nil => simp [balanceConstraints, Counters.isZero]
    | cons c cycle =>
      have first : (Constraint.mk [c] .equal (-b)).holds [n] = true ↔ b + n * c = 0 := by
        rw [Linear.holds_equal, Counters.dot_cons, Counters.nil_dot]
        constructor
        · intro equal
          linarith
        · intro equal
          linarith
      have zero : (Counters.add (b :: base) (Counters.scale n (c :: cycle))).isZero = true ↔
          b + n * c = 0 ∧ (Counters.add base (Counters.scale n cycle)).isZero = true := by
        simp [Counters.isZero]
      rw [zero, ← first, ← ih]
      exact List.forall_mem_cons

/-- The models of the constraints are the numbers of rounds that bring all counters back to zero. -/
theorem isModel_balanceConstraints_iff {base cycle x : Counters} :
    Linear.isModel 1 (balanceConstraints base cycle) [] x = true ↔
      ∃ n : Nat, x = [(n : Int)] ∧ (base.add (Counters.scale n cycle)).isZero = true := by
  rw [Linear.isModel_iff]
  constructor
  · rintro ⟨single, natural, holds, -⟩
    obtain ⟨k, rfl⟩ := List.length_eq_one_iff.1 single
    have natural := Counters.isNonneg_iff.1 natural k (List.mem_singleton_self k)
    obtain ⟨n, rfl⟩ := Int.eq_ofNat_of_zero_le natural
    exact ⟨n, rfl, holds_balanceConstraints_iff.1 holds⟩
  · rintro ⟨n, rfl, balanced⟩
    exact ⟨rfl, by simp [Counters.isNonneg], holds_balanceConstraints_iff.2 balanced, by simp⟩

/-- If an oracle refutes the constraints, no number of rounds brings all counters back to zero. -/
theorem isZero_eq_false_of_refutes {oracle : Linear.Oracle} {base cycle : Counters}
    (refuted : oracle.refutes 1 (balanceConstraints base cycle) = true) (n : Nat) :
    (base.add (Counters.scale n cycle)).isZero = false := by
  rw [Bool.eq_false_iff]
  intro balanced
  have model := isModel_balanceConstraints_iff.2 ⟨n, rfl, balanced⟩
  rw [Linear.Oracle.no_model_of_refutes refuted] at model
  cases model

namespace CounterSystem
variable {sys : CounterSystem} {word : Word}

theorem Known.of_subset {u : Word} (known : sys.Known word) (subset : u ⊆ word) : sys.Known u :=
  fun letter mem => known letter (subset mem)

/-! ## Loops that cannot be balanced -/

theorem Known.rounds {pattern : LoopPattern} (known : sys.Known pattern.cycle) (n : Nat) :
    sys.Known (pattern.rounds n) := by
  refine known.of_subset fun letter mem => ?_
  obtain ⟨_, copy, inside⟩ := List.mem_flatten.1 mem
  rwa [List.eq_of_mem_replicate copy] at inside

theorem total_rounds {pattern : LoopPattern} (known : sys.Known pattern.cycle) (n : Nat) :
    sys.total (pattern.rounds n) = Counters.scale n (sys.total pattern.cycle) := by
  induction n with
  | zero =>
    rw [Nat.cast_zero, Counters.zero_scale, known.length_total]
    rfl
  | succ n ih =>
    rw [LoopPattern.rounds_succ, total_append (known.rounds n), ih, ← Counters.scale_succ]

/-- The sum of a word of a pattern. -/
theorem total_of_holds {pattern : LoopPattern} (stem : sys.Known pattern.stem)
    (cycle : sys.Known pattern.cycle) (n : Nat) :
    sys.total (pattern.stem ++ pattern.rounds n ++ pattern.tail) =
      ((sys.total pattern.stem).add (sys.total pattern.tail)).add
        (Counters.scale n (sys.total pattern.cycle)) := by
  rw [total_append (Known.append_iff.2 ⟨stem, cycle.rounds n⟩), total_append stem,
    total_rounds cycle, Counters.add_assoc, Counters.add_assoc,
    Counters.add_comm (sys.total pattern.tail)]

/-- No word of the pattern brings all counters back to zero. -/
def Unbalanced (sys : CounterSystem) (pattern : LoopPattern) : Prop :=
  ∀ n, ∃ sum, sys.sumEffects (pattern.stem ++ pattern.rounds n ++ pattern.tail) = .ok sum ∧
    sum.isZero = false

theorem isZero_zero (sys : CounterSystem) : sys.zero.isZero = true := by
  simp [zero, Counters.zero, Counters.isZero]

/-- A pattern that cannot be balanced holds no run. -/
theorem Unbalanced.not_holds {pattern : LoopPattern} (unbalanced : sys.Unbalanced pattern)
    {run : Word} (isRun : sys.IsRun run) : ¬ pattern.Holds run := by
  rintro ⟨n, rfl⟩
  obtain ⟨sum, summed, nonzero⟩ := unbalanced n
  rw [sumEffects_eq isRun.travels.known, isRun.total_eq] at summed
  obtain rfl := Except.ok.inj summed
  rw [isZero_zero] at nonzero
  cases nonzero

/-- What an oracle is asked about a pattern. -/
theorem balanceQuestion_eq {pattern : LoopPattern} (stem : sys.Known pattern.stem)
    (cycle : sys.Known pattern.cycle) (tail : sys.Known pattern.tail) :
    sys.balanceQuestion pattern = .ok (balanceConstraints
      ((sys.total pattern.stem).add (sys.total pattern.tail)) (sys.total pattern.cycle)) := by
  rw [balanceQuestion, sumEffects_eq stem, sumEffects_eq tail, sumEffects_eq cycle]
  rfl

theorem canBalance_eq {pattern : LoopPattern} (oracle : Linear.Oracle)
    (stem : sys.Known pattern.stem) (cycle : sys.Known pattern.cycle)
    (tail : sys.Known pattern.tail) :
    sys.canBalance pattern oracle = .ok (!oracle.refutes 1 (balanceConstraints
      ((sys.total pattern.stem).add (sys.total pattern.tail)) (sys.total pattern.cycle))) := by
  rw [canBalance, balanceQuestion_eq stem cycle tail]
  rfl

/-- A pattern that an oracle refutes cannot be balanced. -/
theorem canBalance_spec {pattern : LoopPattern} (oracle : Linear.Oracle)
    (stem : sys.Known pattern.stem) (cycle : sys.Known pattern.cycle)
    (tail : sys.Known pattern.tail) :
    ∃ answer, sys.canBalance pattern oracle = .ok answer ∧
      (answer = false → sys.Unbalanced pattern) := by
  refine ⟨_, canBalance_eq oracle stem cycle tail, fun refuted n => ?_⟩
  have known : sys.Known (pattern.stem ++ pattern.rounds n ++ pattern.tail) :=
    Known.append_iff.2 ⟨Known.append_iff.2 ⟨stem, cycle.rounds n⟩, tail⟩
  refine ⟨_, sumEffects_eq known, ?_⟩
  rw [total_of_holds stem cycle]
  exact isZero_eq_false_of_refutes (by simpa using refuted) n

/-- The word goes round a factorization that is found to be unbalanced, and no number of rounds
balances it. -/
theorem firstUnbalanced_spec (oracle : Linear.Oracle) (known : sys.Known word)
    (places : List (Nat × Nat)) :
    ∃ result, sys.firstUnbalanced oracle word places = .ok result ∧
      ∀ pattern, result = some pattern → pattern.Circles word ∧ sys.Unbalanced pattern := by
  induction places with
  | nil => exact ⟨none, rfl, by simp⟩
  | cons place places ih =>
    rw [firstUnbalanced]
    split
    · exact ih
    · rename_i pattern factored
      obtain ⟨circles, stem, cycle, tail⟩ := circles_of_factorAt? factored
      obtain ⟨answer, ok, certified⟩ := canBalance_spec oracle (known.of_subset stem)
        (known.of_subset cycle) (known.of_subset tail)
      rw [ok]
      cases answer with
      | true => exact ih
      | false =>
        refine ⟨some pattern, rfl, fun other same => ?_⟩
        obtain rfl := Option.some.inj same
        exact ⟨circles, certified rfl⟩

end CounterSystem

/-! ## Findings -/

/-- What a finding says about a walk at a modulus. -/
def Finding.Tells {sys : CounterSystem} (walk : Walk sys) (modulus : Int) : Finding → Prop
  | .genuine => sys.Leads sys.initial sys.zero walk.word walk.last sys.zero
  | .negativeExcursion stem | .guardViolation stem => sys.BreaksAt stem walk.word
  | .wrapOnlyLoop pattern => pattern.Circles walk.word ∧ sys.Unbalanced pattern
  | .inconclusive => modulus ≤ walk.peak

/-- What a finding on a candidate certifies. -/
def Finding.Certifies (sys : CounterSystem) (modulus : Int) (word : Word) : Finding → Prop
  | .genuine => sys.IsRun word
  | .negativeExcursion stem | .guardViolation stem =>
    stem ≠ [] ∧ stem <+: word ∧ ∀ run, sys.IsRun run → ¬ stem <+: run
  | .wrapOnlyLoop pattern =>
    pattern.Holds word ∧ ∀ run, sys.IsRun run → ¬ pattern.Holds run
  | .inconclusive => modulus ≤ word.length * sys.largestEffect

namespace Walk
variable {sys : CounterSystem} (walk : Walk sys) {modulus : Int}

/-- What a finding says about a candidate certifies it. -/
theorem certifies_of_tells {finding : Finding} (told : finding.Tells walk modulus)
    (ne : walk.word ≠ []) (travels : sys.Travels sys.initial walk.word sys.final) :
    finding.Certifies sys modulus walk.word := by
  cases finding with
  | genuine =>
    have leads : sys.Leads sys.initial sys.zero walk.word walk.last sys.zero := told
    rw [walk.last_eq_of_travels travels] at leads
    exact ⟨ne, leads⟩
  | negativeExcursion stem | guardViolation stem =>
    have broken : sys.BreaksAt stem walk.word := told
    exact ⟨broken.ne_nil, broken.begins, fun run isRun => broken.not_prefix isRun⟩
  | wrapOnlyLoop pattern =>
    obtain ⟨circles, unbalanced⟩ := told
    exact ⟨circles.holds, fun run isRun => unbalanced.not_holds isRun⟩
  | inconclusive =>
    have high : modulus ≤ walk.peak := told
    exact high.trans (by exact_mod_cast walk.peak_le)

theorem classifyLoop_tells (oracle : Linear.Oracle) (large : modulus ≤ walk.peak) :
    ∃ finding, walk.classifyLoop oracle = .ok finding ∧ finding.Tells walk modulus := by
  rw [classifyLoop]
  split
  · exact ⟨_, rfl, large⟩
  · obtain ⟨result, ok, certified⟩ :=
      CounterSystem.firstUnbalanced_spec oracle walk.known_word walk.cycles
    rw [wrapOnlyLoop?, ok]
    cases result with
    | none => exact ⟨_, rfl, large⟩
    | some pattern => exact ⟨_, rfl, certified pattern rfl⟩

/-- A net effect that the modulus divides and that is not zero takes a counter to the modulus. -/
theorem le_peak_of_dvd (divides : ∀ x ∈ walk.replay.netEffect, modulus ∣ x)
    (unbalanced : walk.replay.netEffect.isZero = false) : modulus ≤ walk.peak := by
  obtain ⟨x, mem, nonzero⟩ : ∃ x ∈ walk.replay.netEffect, x ≠ 0 := by
    simpa [Counters.isZero] using unbalanced
  have small := Int.le_of_dvd (by omega : (0 : Int) < x.natAbs) (Int.dvd_natAbs.2 (divides x mem))
  have height := Counters.peak_le_iff.1 le_rfl x mem
  have bound := Replay.peak_le_iff.1 le_rfl _ (Replay.current_mem_vectors walk.replay)
  rw [← peak_replay]
  omega

theorem isZero_netEffect_iff :
    walk.replay.netEffect.isZero = true ↔ walk.replay.netEffect = sys.zero := by
  rw [Counters.isZero_iff, netEffect_replay, walk.known_word.length_total]
  rfl

/-- Every walk whose net effect the modulus divides gets a finding, and what the finding says is
true. It is genuine exactly if the walk leads from zero back to zero. -/
theorem classify_tells (oracle : Linear.Oracle) (two_le : 2 ≤ modulus)
    (divides : ∀ x ∈ sys.total walk.word, modulus ∣ x) :
    ∃ finding, walk.classify modulus oracle = .ok finding ∧ finding.Tells walk modulus ∧
      (sys.Leads sys.initial sys.zero walk.word walk.last sys.zero → finding = .genuine) := by
  rw [← walk.netEffect_replay] at divides
  have residues : ¬ (walk.replay.netEffect.any fun x => x.fmod modulus ≠ 0) = true := by
    simp only [List.any_eq_true, not_exists, not_and]
    intro x mem
    simp [Int.fmod_eq_emod_of_nonneg x (by omega : 0 ≤ modulus),
      Int.emod_eq_zero_of_dvd (divides x mem)]
  rw [classify, if_neg (by omega), if_neg residues, leads_zero_iff, ← isZero_netEffect_iff]
  cases blocked : walk.replay.firstBlock with
  | none =>
    dsimp only
    by_cases balanced : walk.replay.netEffect.isZero = true
    · rw [if_pos balanced]
      exact ⟨_, rfl, walk.leads_zero_iff.2 ⟨blocked, walk.isZero_netEffect_iff.1 balanced⟩,
        fun _ => rfl⟩
    · rw [if_neg balanced]
      have large := walk.le_peak_of_dvd divides (by simpa using balanced)
      obtain ⟨finding, classified, told⟩ := walk.classifyLoop_tells oracle large
      exact ⟨finding, classified, told, fun leads => absurd leads.2 balanced⟩
  | some block =>
    have broken := walk.breaksAt_of_firstBlock blocked
    dsimp only
    split
    · exact ⟨_, rfl, broken, nofun⟩
    · split
      · exact ⟨_, rfl, broken, nofun⟩
      · rename_i high
        rw [peak_replay, not_lt] at high
        obtain ⟨finding, classified, told⟩ := walk.classifyLoop_tells oracle high
        exact ⟨finding, classified, told, nofun⟩

/-- Every candidate gets a finding, and the finding certifies what it says. -/
theorem classify_certifies (oracle : Linear.Oracle) (two_le : 2 ≤ modulus)
    (ne : walk.word ≠ []) (travels : sys.Travels sys.initial walk.word sys.final)
    (divides : ∀ x ∈ sys.total walk.word, modulus ∣ x) :
    ∃ finding, walk.classify modulus oracle = .ok finding ∧
      finding.Certifies sys modulus walk.word := by
  obtain ⟨finding, classified, told, -⟩ := walk.classify_tells oracle two_le divides
  exact ⟨finding, classified, walk.certifies_of_tells told ne travels⟩

/-- Every walk to the final state whose net effect the modulus divides gets a finding. It is genuine
exactly if all guards hold, no counter drops below zero and the counters come back to zero. A stem
that it names is a beginning of the walk that no run begins with and that can be taken but for its
last transition. A pattern that it names is one that the walk goes round, and no word of it brings
the counters back to zero. -/
theorem classify_exact (oracle : Linear.Oracle) (two_le : 2 ≤ modulus)
    (ends : walk.endsInFinal = true) (divides : ∀ x ∈ walk.netEffect, modulus ∣ x) :
    ∃ finding, walk.classify modulus oracle = .ok finding ∧
      (finding = .genuine ↔ sys.Leads sys.initial sys.zero walk.word sys.final sys.zero) ∧
      (∀ stem, finding.stem? = some stem →
        stem ≠ [] ∧ stem <+: walk.word ∧ (∀ run, sys.IsRun run → ¬ stem <+: run) ∧
          ∀ shorter, shorter <+: stem → shorter ≠ stem → sys.Passes shorter) ∧
      ∀ pattern, finding.loop? = some pattern →
        (∃ k, 1 ≤ k ∧ walk.word = pattern.stem ++ pattern.rounds k ++ pattern.tail) ∧
          ∀ n, ∃ sum, sys.sumEffects (pattern.stem ++ pattern.rounds n ++ pattern.tail) = .ok sum ∧
            sum.isZero = false := by
  rw [netEffect_eq_total] at divides
  have last : walk.last = sys.final := of_decide_eq_true ends
  obtain ⟨finding, classified, told, genuine⟩ := walk.classify_tells oracle two_le divides
  rw [last] at genuine
  refine ⟨finding, classified, ⟨?_, genuine⟩, fun stem named => ?_, fun pattern named => ?_⟩
  · rintro rfl
    rw [← last]
    exact told
  · have broken : sys.BreaksAt stem walk.word := by
      cases finding with
      | negativeExcursion other | guardViolation other =>
        obtain rfl := Option.some.inj named
        exact told
      | genuine | wrapOnlyLoop pattern | inconclusive => cases named
    exact ⟨broken.ne_nil, broken.begins, fun run isRun => broken.not_prefix isRun, broken.shortest⟩
  · cases finding with
    | wrapOnlyLoop other =>
      obtain rfl := Option.some.inj named
      exact told
    | genuine | negativeExcursion stem | guardViolation stem | inconclusive => cases named

open CounterSystem (downOrUp)

/-- A step down and a step up. -/
def downThenUp : Walk downOrUp where
  steps :=
    [(0, ⟨.int 0, .int 1, [-1], .absent, .always⟩), (2, ⟨.int 1, .int 2, [1], .absent, .always⟩)]
  valid := ⟨rfl, rfl, rfl, rfl, trivial⟩

/-- The step down takes the counter below zero, so no run begins with it. -/
theorem classify_exact_downOrUp :
    downThenUp.classify 3 = .ok (.negativeExcursion [0]) ∧
      ¬ downOrUp.Leads downOrUp.initial downOrUp.zero [0, 2] downOrUp.final downOrUp.zero ∧
      ∀ run, downOrUp.IsRun run → ¬ [0] <+: run := by
  have classified : downThenUp.classify 3 = .ok (.negativeExcursion [0]) := rfl
  obtain ⟨finding, same, genuine, stems, -⟩ :=
    downThenUp.classify_exact Linear.solver (by decide : (2 : Int) ≤ 3) rfl (by decide)
  obtain rfl := Except.ok.inj (classified.symm.trans same)
  exact ⟨classified, mt genuine.2 nofun, (stems [0] rfl).2.2.1⟩

end Walk
end ZeroRun
