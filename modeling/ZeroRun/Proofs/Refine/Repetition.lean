import Mathlib
import ZeroRun.Proofs.Refine.Course
import ZeroRun.Proofs.Refine.Step

/-! What a query does not come back to. A candidate that was certified to be no run is excluded from
then on. A candidate on which nothing was found has counters that reach the modulus. If the modulus
is raised to a common multiple, it lies beyond these counters from then on, so nothing of the kind
happens on this candidate again. -/
namespace ZeroRun

namespace ModulusPolicy
variable {modulus peak : Int}

/-- A common multiple with the number behind the peak lies beyond the peak. -/
theorem lt_lcm (positive : 0 < modulus) (reached : modulus ≤ peak) :
    peak < Int.lcm modulus (peak + 1) := by
  have nonzero : Int.lcm modulus (peak + 1) ≠ 0 := Int.lcm_ne_zero (by omega) (by omega)
  have multiple := Int.le_of_dvd (by omega) (Int.dvd_lcm_right modulus (peak + 1))
  omega

/-- If the peak has reached the modulus, the modulus need not be doubled. -/
theorem next_lcm (positive : 0 < modulus) (reached : modulus ≤ peak) :
    lcm.next modulus peak = Int.lcm modulus (peak + 1) :=
  if_pos (reached.trans_lt (lt_lcm positive reached))

end ModulusPolicy

/-- If nothing is found on a walk whose net effect the modulus divides, then one of its counters
reaches the modulus. -/
theorem Walk.le_peak_of_inconclusive {sys : CounterSystem} {walk : Walk sys} {modulus : Int}
    {oracle : Linear.Oracle} (two_le : 2 ≤ modulus) (divides : ∀ x ∈ walk.netEffect, modulus ∣ x)
    (classified : walk.classify modulus oracle = .ok .inconclusive) : modulus ≤ walk.peak := by
  rw [netEffect_eq_total] at divides
  obtain ⟨finding, same, told, -⟩ := walk.classify_tells oracle two_le divides
  obtain rfl := Except.ok.inj (classified.symm.trans same)
  exact told

namespace Solver
variable {sys : CounterSystem} {solver : Solver sys} {session next : Session} {clock : Clock}
  {round earlier later : Round}

/-! ## What a round leaves behind -/

/-- The candidate of the round is excluded if it was certified to be no run. If nothing was found on
it and the modulus is raised to common multiples, the modulus lies beyond its counters. -/
structure Leaves (solver : Solver sys) (session : Session) (round : Round) : Prop where
  covered : round.Spurious → ∀ word, round.candidate? = some word → session.exclusions.Covers word
  beyond : solver.settings.policy = .lcm → round.finding = some .inconclusive →
    ∀ walk : Walk sys, round.candidate? = some walk.word → (walk.peak : Int) < session.modulus

theorem Leaves.grow (leaves : solver.Leaves session round)
    (grows : ∀ word, session.exclusions.Covers word → next.exclusions.Covers word)
    (larger : session.modulus ≤ next.modulus) : solver.Leaves next round where
  covered spurious word found := grows word (leaves.covered spurious word found)
  beyond policy missed walk found := (leaves.beyond policy missed walk found).trans_le larger

/-- If two rounds have the same candidate, the earlier one has not certified it to be no run, and
common multiples provided, not both have found nothing on it. -/
def Apart (solver : Solver sys) (earlier later : Round) : Prop :=
  ∀ word, earlier.candidate? = some word → later.candidate? = some word →
    ¬ earlier.Spurious ∧ (solver.settings.policy = .lcm →
      earlier.finding = some .inconclusive → later.finding ≠ some .inconclusive)

/-- What an earlier round has left behind keeps it apart from the round of a new candidate. -/
theorem Leaves.apart (leaves : solver.Leaves session earlier)
    (uncovered : ∀ word, later.candidate? = some word → ¬ session.exclusions.Covers word)
    (high : later.finding = some .inconclusive → ∀ word, later.candidate? = some word →
      ∃ walk : Walk sys, walk.word = word ∧ session.modulus ≤ walk.peak) :
    solver.Apart earlier later := by
  intro word before again
  refine ⟨fun spurious => uncovered word again (leaves.covered spurious word before), ?_⟩
  intro policy missed missedAgain
  obtain ⟨walk, rfl, reached⟩ := high missedAgain word again
  exact absurd (leaves.beyond policy missed walk before) (not_lt.2 reached)

/-- The rounds so far keep apart, and each has left something behind for those to come. -/
structure Advances (solver : Solver sys) (session : Session) : Prop where
  apart : session.rounds.Pairwise solver.Apart
  leaves : session.phase ≠ .done → ∀ round ∈ session.rounds, solver.Leaves session round

/-- One more round, whose candidate is not excluded and reaches the modulus if nothing is found. -/
theorem Advances.append (advances : solver.Advances session) (running : session.phase ≠ .done)
    (rounds : next.rounds = session.rounds ++ [round])
    (uncovered : ∀ word, round.candidate? = some word → ¬ session.exclusions.Covers word)
    (high : round.finding = some .inconclusive → ∀ word, round.candidate? = some word →
      ∃ walk : Walk sys, walk.word = word ∧ session.modulus ≤ walk.peak)
    (grows : next.phase ≠ .done → ∀ word, session.exclusions.Covers word →
      next.exclusions.Covers word)
    (larger : next.phase ≠ .done → session.modulus ≤ next.modulus)
    (leaves : next.phase ≠ .done → solver.Leaves next round) : solver.Advances next := by
  constructor
  · rw [rounds]
    apply List.pairwise_append.2
    refine ⟨advances.apart, List.pairwise_singleton _ _, fun earlier old later only => ?_⟩
    obtain rfl := List.mem_singleton.1 only
    exact (advances.leaves running earlier old).apart uncovered high
  · intro onward earlier mem
    rw [rounds, List.mem_append, List.mem_singleton] at mem
    rcases mem with old | rfl
    · exact (advances.leaves running earlier old).grow (grows onward) (larger onward)
    · exact leaves onward

/-! ## Turns -/

theorem Finds.uncovered {word other : Word} (finds : solver.Finds session word)
    (candidate : round.candidate? = some word) (same : round.candidate? = some other) :
    ¬ session.exclusions.Covers other := by
  obtain rfl := Option.some.inj (candidate.symm.trans same)
  exact finds.candidate.uncovered

/-- What a round of the query does keeps its rounds apart. -/
theorem Progress.advances (progress : solver.Progress session next) (two_le : 2 ≤ session.modulus)
    (running : session.phase ≠ .done) (advances : solver.Advances session) :
    solver.Advances next := by
  cases progress with
  | refuted _ _ done logs | cut _ _ _ _ done logs =>
    obtain ⟨round, rounds, status, found⟩ := logs
    have none : round.candidate? = none := congrArg SearchStatus.word? status
    apply advances.append running rounds
    · simp [none]
    · simp [none]
    all_goals exact fun onward => absurd done onward
  | reached word finds _ _ done logs =>
    obtain ⟨round, rounds, status, found⟩ := logs
    have candidate : round.candidate? = some word := congrArg SearchStatus.word? status
    apply advances.append running rounds
    · exact fun _ => finds.uncovered candidate
    · simp [found]
    all_goals exact fun onward => absurd done onward
  | excluded word finds _ grows covers modulus _ _ finding spurious logs =>
    obtain ⟨round, rounds, status, found⟩ := logs
    have candidate : round.candidate? = some word := congrArg SearchStatus.word? status
    have conclusive : round.finding ≠ some .inconclusive := by
      intro missed
      obtain rfl := Option.some.inj (found.symm.trans missed)
      cases spurious
    apply advances.append running rounds
    · exact fun _ => finds.uncovered candidate
    · exact fun missed => absurd missed conclusive
    · exact fun _ => grows
    · exact fun _ => modulus.ge
    · refine fun _ => ⟨fun _ other same => ?_, fun _ missed => absurd missed conclusive⟩
      obtain rfl := Option.some.inj (candidate.symm.trans same)
      exact covers
  | raised word finds _ exclusions modulus _ _ walk spells raises logs high =>
    obtain ⟨round, rounds, status, found⟩ := logs
    have candidate : round.candidate? = some word := congrArg SearchStatus.word? status
    apply advances.append running rounds
    · exact fun _ => finds.uncovered candidate
    · rintro - other same
      obtain rfl := Option.some.inj (candidate.symm.trans same)
      exact ⟨walk, spells, high⟩
    · exact fun _ other covered => exclusions ▸ covered
    · exact fun _ => modulus.le
    · refine fun _ => ⟨fun spurious => ?_, fun policy _ other same => ?_⟩
      · obtain ⟨finding, known, certified⟩ := spurious
        obtain rfl := Option.some.inj (found.symm.trans known)
        cases certified
      · have word_eq := Option.some.inj (same.symm.trans candidate)
        obtain rfl := Walk.eq_of_word_eq (word_eq.trans spells.symm)
        rw [raises, policy, ModulusPolicy.next_lcm (by omega) high]
        exact ModulusPolicy.lt_lcm (by omega) high

theorem Visits.advances (two_le : 2 ≤ solver.settings.initialModulus)
    (visits : solver.Visits clock session) : solver.Advances session := by
  induction visits with
  | opening begun =>
    have none := (opens_of_opening begun).rounds
    exact ⟨none ▸ .nil, fun _ round mem => by simp [none] at mem⟩
  | turn before running turned ih =>
    have ready := before.ready two_le running
    cases ready.turns turned with
    | stopped done rounds =>
      refine ⟨?_, fun running => absurd done running⟩
      rw [rounds]
      exact ih.apart
    | advanced progress => exact progress.advances ready.two_le running ih

/-- The status and the finding of the round that was logged. -/
theorem Logs.eq {status : SearchStatus} {finding : Option Finding}
    (logs : Logs session next status finding) (rounds : next.rounds = session.rounds ++ [round]) :
    round.outcome.status = status ∧ round.finding = finding := by
  obtain ⟨other, logged, known⟩ := logs
  obtain rfl : other = round := by
    simpa using logged.symm.trans rounds
  exact known

/-- If nothing was found on a candidate and the modulus is raised to common multiples, the peak of
the candidate has reached the modulus, and the next modulus lies beyond it. -/
theorem Visits.lt_modulus (two_le : 2 ≤ solver.settings.initialModulus)
    (policy : solver.settings.policy = .lcm) (visits : solver.Visits clock session)
    (running : session.phase ≠ .done) (turned : solver.turn clock session = (next, none))
    (rounds : next.rounds = session.rounds ++ [round])
    (missed : round.finding = some .inconclusive) :
    ∃ walk : Walk sys, round.candidate? = some walk.word ∧ session.modulus ≤ walk.peak ∧
      next.modulus = Int.lcm session.modulus (walk.peak + 1) ∧
      (walk.peak : Int) < next.modulus := by
  have ready := visits.ready two_le running
  have positive : 0 < session.modulus := by have := ready.two_le; omega
  cases ready.turns turned with
  | stopped _ same => simp [same] at rounds
  | advanced progress =>
    cases progress with
    | refuted _ _ _ logs | cut _ _ _ _ _ logs | reached _ _ _ _ _ logs =>
      cases (logs.eq rounds).2.symm.trans missed
    | excluded _ _ _ _ _ _ _ _ finding spurious logs =>
      obtain rfl := Option.some.inj ((logs.eq rounds).2.symm.trans missed)
      cases spurious
    | raised word _ _ _ _ _ _ walk spells raises logs high =>
      have next_eq : next.modulus = Int.lcm session.modulus (walk.peak + 1) := by
        rw [raises, policy, ModulusPolicy.next_lcm positive high]
      refine ⟨walk, ?_, high, next_eq, ?_⟩
      · rw [spells]
        exact congrArg SearchStatus.word? (logs.eq rounds).1
      · rw [next_eq]
        exact ModulusPolicy.lt_lcm positive high

/-! ## No repetition -/

/-- If nothing is found on a walk, its peak has reached the modulus. So if the modulus is raised to
common multiples, it always gets beyond the peak, without being doubled, and it never happens twice
that nothing is found on a candidate. And however the modulus is raised, a candidate that was
certified to be no run is not found again. -/
theorem candidates_never_return (two_le : 2 ≤ solver.settings.initialModulus)
    (visits : solver.Visits clock session) :
    (∀ (walk : Walk sys) (modulus : Int) (oracle : Linear.Oracle), 2 ≤ modulus →
      (∀ x ∈ walk.netEffect, modulus ∣ x) →
      walk.classify modulus oracle = .ok .inconclusive → modulus ≤ walk.peak) ∧
    (solver.settings.policy = .lcm →
      (∀ next round, session.phase ≠ .done → solver.turn clock session = (next, none) →
        next.rounds = session.rounds ++ [round] → round.finding = some .inconclusive →
        ∃ walk : Walk sys, round.candidate? = some walk.word ∧
          next.modulus = Int.lcm session.modulus (walk.peak + 1) ∧
          (walk.peak : Int) < next.modulus) ∧
      session.rounds.Pairwise fun earlier later => ∀ word,
        earlier.candidate? = some word → earlier.finding = some .inconclusive →
        later.candidate? = some word → later.finding ≠ some .inconclusive) ∧
    session.rounds.Pairwise fun earlier later => ∀ word,
      earlier.candidate? = some word → earlier.Spurious → later.candidate? ≠ some word := by
  have apart := (visits.advances two_le).apart
  refine ⟨fun walk modulus oracle => Walk.le_peak_of_inconclusive, fun policy => ⟨?_, ?_⟩, ?_⟩
  · intro next round running turned rounds missed
    obtain ⟨walk, candidate, -, raised, beyond⟩ :=
      visits.lt_modulus two_le policy running turned rounds missed
    exact ⟨walk, candidate, raised, beyond⟩
  · exact apart.imp fun both word before missed again => (both word before again).2 policy missed
  · exact apart.imp fun both word before spurious again => (both word before again).1 spurious

open CounterSystem (twoSteps eq_of_travels_twoSteps walksOfLength_twoSteps isWritable_twoSteps)

/-- A query that starts at modulus two and takes common multiples. -/
def byMultiples (sys : CounterSystem) : Solver sys :=
  { settings := { policy := .lcm } }

/-- The session that such a query begins with. -/
def firstByMultiples : Session :=
  { modulus := 2, phase := .searching, ticks := 1 }

/-- Two steps up. -/
def upTwice : Walk (twoSteps 1 1) where
  steps :=
    [(0, ⟨.int 0, .int 1, [1], .absent, .always⟩), (1, ⟨.int 1, .int 2, [1], .absent, .always⟩)]
  valid := ⟨rfl, rfl, rfl, rfl, trivial⟩

theorem finds_upTwice : (byMultiples (twoSteps 1 1)).Finds firstByMultiples [0, 1] where
  candidate :=
    { ne_nil := by simp
      travels := by
        have listed : [0, 1] ∈ (twoSteps 1 1).walksOfLength 2 (.int 0) := by
          simp [walksOfLength_twoSteps]
        exact (CounterSystem.mem_walksOfLength.1 listed).2
      divides := by decide
      uncovered := by simp [ExclusionSet.Covers, firstByMultiples] }
  within := nofun
  least other candidate := by
    rw [eq_of_travels_twoSteps candidate.travels]
    decide

/-- The counter comes to two, which is zero modulo two, and nothing is found. -/
theorem turn_byMultiples (clock : Clock) : ∃ next round,
    (byMultiples (twoSteps 1 1)).turn clock firstByMultiples = (next, none) ∧
      next.rounds = [round] ∧ round.candidate? = some [0, 1] ∧
      round.finding = some .inconclusive := by
  have allows : (byMultiples (twoSteps 1 1)).budget.Allows 1 := ⟨rfl, rfl, nofun⟩
  obtain ⟨outcome, ran, status⟩ := finds_upTwice.search (ExclusionSet.safe_empty _)
    ⟨2, 1, by decide⟩ rfl rfl
  have short : Decimal.isWritable (ModulusPolicy.lcm.next 2 upTwice.peak) = true := by
    decide +kernel
  rw [(turn_eq_iterate allows (Nat.lt_succ_self 0) clock).2]
  exact ⟨_, _, iterate_eq_iff.2 ⟨by decide +kernel, _, outcome, make_eq (by decide) 1, ran,
    .found [0, 1] status (validate_eq_iff.2
      ⟨upTwice, .inconclusive, _, rfl, rfl, rfl, .inconclusive short, rfl⟩)⟩, rfl,
    congrArg SearchStatus.word? status, rfl⟩

/-- The first modulus is two, the peak is two, and the next modulus is six. -/
theorem candidates_never_return_upTwice : ∃ next round,
    (byMultiples (twoSteps 1 1)).turn (.whole fun _ => 0) firstByMultiples = (next, none) ∧
      next.rounds = [round] ∧ round.candidate? = some upTwice.word ∧
      round.finding = some .inconclusive ∧ upTwice.peak = 2 ∧ next.modulus = 6 := by
  obtain ⟨next, round, turned, rounds, candidate, missed⟩ := turn_byMultiples (.whole fun _ => 0)
  have begun : (byMultiples (twoSteps 1 1)).opening = .ok firstByMultiples :=
    opening_eq isWritable_twoSteps rfl
  obtain ⟨-, multiples, -⟩ := candidates_never_return (by decide)
    (.opening begun : (byMultiples (twoSteps 1 1)).Visits (.whole fun _ => 0) _)
  obtain ⟨walk, found, modulus, -⟩ := (multiples rfl).1 next round nofun turned rounds missed
  obtain rfl : walk = upTwice :=
    Walk.eq_of_word_eq (Option.some.inj (found.symm.trans candidate))
  exact ⟨next, round, turned, rounds, candidate, missed, rfl, modulus⟩

end Solver
end ZeroRun
