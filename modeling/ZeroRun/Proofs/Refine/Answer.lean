import Mathlib
import ZeroRun.Proofs.IntegerReach
import ZeroRun.Proofs.Refine.Legible

/-! The answers of a query are right, whatever the settings, the oracles, the budget and the clock.
If it answers that there is no run, there is none. If it answers with a run, that run comes before
all others, so every query that answers with a run answers with the same one. Both follow from one
invariant of the loop: no run is ever excluded, so every run is a candidate of every round. -/
namespace ZeroRun

theorem CounterSystem.IsLeastRun.eq {sys : CounterSystem} {u v : Word} (first : sys.IsLeastRun u)
    (second : sys.IsLeastRun v) : u = v :=
  eq_of_not_shortlex (second.2 u first.1) (first.2 v second.1)

/-- No ceiling but that on the length of candidates ends a query before the given number of
rounds. -/
structure Budget.Allows (budget : Budget) (rounds : Nat) : Prop where
  modulus : budget.maxModulus = none
  time : budget.maxTime = none
  iterations : ∀ limit, budget.maxIterations = some limit → rounds ≤ limit

namespace Solver
variable {sys : CounterSystem} {solver : Solver sys} {session next final : Session} {clock : Clock}

/-- The verdict of a session, if it has one, is right. -/
structure Truthful (sys : CounterSystem) (session : Session) : Prop where
  unreachable : session.verdict = some .unreachable → ∀ run, ¬ sys.IsRun run
  reachable : ∀ word, session.verdict = some (.reachable word) → sys.IsLeastRun word

/-- What holds of a session between rounds. -/
structure Sound (sys : CounterSystem) (session : Session) : Prop where
  safe : session.phase ≠ .done → session.exclusions.Safe sys
  truthful : Truthful sys session

theorem Progress.sound (progress : solver.Progress session next)
    (safe : session.exclusions.Safe sys) (truthful : Truthful sys session) : Sound sys next := by
  cases progress with
  | refuted none verdict done =>
    refine ⟨fun running => absurd done running, fun _ run isRun => ?_, by simp [verdict]⟩
    exact none run (safe.candidate_of_isRun _ isRun)
  | cut limit known beyond verdict done =>
    exact ⟨fun running => absurd done running, by simp [verdict], by simp [verdict]⟩
  | reached word finds run verdict done =>
    refine ⟨fun running => absurd done running, by simp [verdict], fun other answer => ?_⟩
    obtain rfl : word = other := by simpa [verdict] using answer
    exact ⟨run, fun other isRun => finds.least other (safe.candidate_of_isRun _ isRun)⟩
  | excluded word finds more grows covers modulus verdict searching =>
    exact ⟨fun _ => more, by simpa [verdict] using truthful.unreachable,
      by simpa [verdict] using truthful.reachable⟩
  | raised word finds reached exclusions modulus verdict searching =>
    exact ⟨fun _ => exclusions ▸ safe, by simpa [verdict] using truthful.unreachable,
      by simpa [verdict] using truthful.reachable⟩

/-! ## Turns -/

/-- A turn keeps a session sound. -/
theorem Sound.turn (sound : Sound sys session) (running : session.phase ≠ .done)
    (turned : solver.turn clock session = (next, none)) : Sound sys next := by
  have safe := sound.safe running
  rcases turn_cases solver clock session with ⟨-, limit, after, -, stops⟩ | ⟨-, after, looks, round⟩
  · rw [stops] at turned
    cases turned
    exact ⟨fun running => absurd rfl running, by simp [Session.finish], by simp [Session.finish]⟩
  · rw [round] at turned
    have exclusions := looks.unchanged Session.exclusions fun _ => rfl
    have verdict := looks.unchanged Session.verdict fun _ => rfl
    obtain ⟨progress, -⟩ :=
      progress_of_iterate (exclusions ▸ safe) (two_le_of_iterate turned) turned
    refine progress.sound (exclusions ▸ safe) ⟨?_, ?_⟩
    · rw [verdict]
      exact sound.truthful.unreachable
    · rw [verdict]
      exact sound.truthful.reachable

theorem sound_opening (begun : solver.opening = .ok session) : Sound sys session := by
  have opens := opens_of_opening begun
  rcases opens.answer with ⟨refuted, done, verdict⟩ | ⟨-, -, verdict⟩
  · refine ⟨fun running => absurd done running, fun _ run => ?_, by simp [verdict]⟩
    exact IntegerReach.not_isRun_of_refutes refuted.2
  · refine ⟨fun _ => ?_, by simp [verdict], by simp [verdict]⟩
    rw [opens.exclusions]
    exact ExclusionSet.safe_empty sys

/-- A whole query keeps its sessions sound. -/
theorem Visits.sound (visits : solver.Visits clock session) : Sound sys session := by
  induction visits with
  | opening begun => exact sound_opening begun
  | turn before running turned ih => exact ih.turn running turned

theorem sound_of_run {fuel : Nat} (finished : solver.run clock fuel = some (.ok final)) :
    Sound sys final :=
  (visits_of_run finished).1.sound

/-! ## Rounds within the budget -/

/-- As long as the budget allows another round, the next turn is one. -/
theorem turn_eq_iterate {rounds : Nat} (allows : solver.budget.Allows rounds)
    (early : session.iteration < rounds) (clock : Clock) :
    solver.Begins clock session ∧ solver.turn clock session = solver.iterate clock session := by
  have patient : solver.iterationsSpent session = false := by
    rw [iterationsSpent]
    split
    · rfl
    · rename_i limit known
      have := allows.iterations limit known
      simp only [decide_eq_false_iff_not]
      omega
  have unlimited : solver.exceededLimit clock (clock.read 0) session = .ok (none, session) := by
    simp [exceededLimit, patient, modulusSpent, allows.modulus, timeSpent, allows.time]
  refine ⟨⟨session, unlimited⟩, ?_⟩
  rw [turn, unlimited]

/-- As long as the budget allows another round and its numbers can be written, the loop goes on with
what it makes of the session. -/
theorem loop_progress {rounds : Nat} (allows : solver.budget.Allows rounds)
    (early : session.iteration < rounds) (running : session.phase ≠ .done)
    (safe : session.exclusions.Safe sys) (two_le : 2 ≤ session.modulus) (clock : Clock)
    (legible : ¬ solver.Overlong session) :
    ∃ next, solver.turn clock session = (next, none) ∧ solver.Progress session next ∧
      next.iteration = session.iteration + 1 ∧
      ∀ fuel, solver.loop clock (fuel + 1) session = solver.loop clock fuel next := by
  obtain ⟨next, iterated⟩ := exists_iterate clock safe two_le legible
  obtain ⟨progress, counted⟩ := progress_of_iterate safe two_le iterated
  have turned : solver.turn clock session = (next, none) := by
    rw [(turn_eq_iterate allows early clock).2, iterated]
  exact ⟨next, turned, progress, counted, fun fuel => loop_of_turn running turned⟩

end Solver

/-! ## A system with one walk -/

namespace CounterSystem

/-- Two transitions in a row that change one counter. -/
def twoSteps (first second : Int) : CounterSystem where
  states := [.int 0, .int 1, .int 2]
  dimension := 1
  declaredDimension := .int 1
  transitions :=
    [⟨.int 0, .int 1, [first], .absent, .always⟩, ⟨.int 1, .int 2, [second], .absent, .always⟩]
  initial := .int 0
  final := .int 2
  live := [true, true]
  nodup_states := by decide
  initial_mem := by decide
  final_mem := by decide
  fits := by simp [Transition.Fits, Guard.always]
  live_length := rfl
  dead_never_fires index t _ dead := by simpa using List.mem_of_getElem? dead

variable {first second : Int} {word : Word}

theorem isWritable_twoSteps : (twoSteps first second).isWritable = true :=
  -- Only states and dimension are written.
  have same : (twoSteps first second).isWritable = (twoSteps 0 0).isWritable := rfl
  same.trans (by decide +kernel)

theorem walksOfLength_twoSteps (length : Nat) :
    (twoSteps first second).walksOfLength length (.int 0) =
      if length = 2 then [[0, 1]] else [] := by
  match length with
  | 0 | 1 | 2 | length + 3 => simp [walksOfLength, twoSteps, liveTransitions]

theorem eq_of_travels_twoSteps
    (travels : (twoSteps first second).Travels (.int 0) word (.int 2)) : word = [0, 1] := by
  have mem := mem_walksOfLength.2 ⟨rfl, travels⟩
  rw [walksOfLength_twoSteps] at mem
  split at mem
  · exact List.mem_singleton.1 mem
  · cases mem

theorem isRun_twoSteps_iff :
    (twoSteps first second).IsRun word ↔ word = [0, 1] ∧ 0 ≤ first ∧ first + second = 0 := by
  constructor
  · intro run
    obtain rfl := eq_of_travels_twoSteps run.travels
    have leads : (twoSteps first second).Leads (.int 0) [0]
        (spell (twoSteps first second).liveTransitions) (.int 2) [0] := run.2
    have fires := leads.fires fun p mem => (mem_liveTransitions.1 mem).1
    have total := run.total_eq
    refine ⟨rfl, ?_, ?_⟩
    · simpa [Counters.isNonneg, Counters.add] using fires.2.1
    · have sum : [0 + first + second] = [(0 : Int)] := total
      simpa using sum
  · rintro ⟨rfl, natural, balanced⟩
    have sum : 0 + first + second = 0 := by omega
    have leads : (twoSteps first second).Leads (.int 0) [0] [0, 1] (.int 2) [0 + first + second] :=
      .cons 0 ⟨.int 0, .int 1, [first], .absent, .always⟩ [0] rfl rfl
        (by simpa [Counters.isNonneg, Counters.add] using natural)
        (.cons 1 ⟨.int 1, .int 2, [second], .absent, .always⟩ [0 + first] rfl rfl
          (by simp [Counters.isNonneg, Counters.add, balanced]) (.nil _ _))
    rw [sum] at leads
    exact ⟨by decide, leads⟩

end CounterSystem

/-! ## Answers -/

namespace Solver
variable {sys : CounterSystem} {final : Session} {word : Word}
open CounterSystem

/-- A query that starts at modulus three. -/
def atThree (sys : CounterSystem) : Solver sys :=
  { settings := { initialModulus := 3 } }

/-- The session that such a query begins with. -/
def firstAtThree : Session :=
  { modulus := 3, phase := .searching, ticks := 1 }

/-- With effects of at most one and candidates of at most two steps, a round at modulus three can
write its numbers. -/
theorem loop_atThree (clock : Clock) (session : Session) (safe : session.exclusions.Safe sys)
    (modulus : session.modulus = 3) (searching : session.phase = .searching)
    (small : sys.largestEffect ≤ 1)
    (short : ∀ word, (atThree sys).Finds session word → word.length ≤ 2) :
    ∃ next, (atThree sys).turn clock session = (next, none) ∧
      (atThree sys).Progress session next ∧
      ∀ fuel, (atThree sys).loop clock (fuel + 1) session = (atThree sys).loop clock fuel next := by
  have allows : (atThree sys).budget.Allows (session.iteration + 1) := ⟨rfl, rfl, nofun⟩
  have bound : sys.numberBound 2 ≤ 6 :=
    Nat.mul_le_mul (Nat.mul_le_mul_left 2 small) (Nat.succ_le_succ (Nat.mul_le_mul_left 2 small))
  have six : Decimal.isWritable (6 : Nat) = true := by decide +kernel
  have legible : ¬ (atThree sys).Overlong session := by
    refine not_overlong (by simp [modulus]) ?_ short (Decimal.isWritable_of_le bound six)
    rw [modulus]
    exact Decimal.isWritable_of_le (by decide) six
  obtain ⟨next, turned, progress, -, loop⟩ := loop_progress allows (Nat.lt_succ_self _)
    (by simp [searching]) safe (by simp [modulus]) clock legible
  exact ⟨next, turned, progress, loop⟩

/-- After two rounds the only walk is a run that was found, or is excluded. -/
theorem run_atThree_twoSteps (first second : Int) (clock : Clock)
    (small : (twoSteps first second).largestEffect ≤ 1) :
    ∃ final, (atThree (twoSteps first second)).run clock 3 = some (.ok final) ∧
      (final.verdict = some .unreachable ∨ ∃ word, final.verdict = some (.reachable word)) := by
  have start := ExclusionSet.safe_empty (twoSteps first second)
  have short : ∀ session word, (atThree (twoSteps first second)).Finds session word →
      word.length ≤ 2 := by
    intro session word finds
    rw [eq_of_travels_twoSteps finds.candidate.travels]
    rfl
  have begun : (atThree (twoSteps first second)).opening = .ok firstAtThree :=
    opening_eq isWritable_twoSteps rfl
  obtain ⟨middle, -, progress, loop⟩ :=
    loop_atThree clock firstAtThree start rfl rfl small (short _)
  rw [run_of_opening begun, loop]
  cases progress with
  | refuted _ verdict done => exact ⟨middle, loop_of_done _ _ _ done, .inl verdict⟩
  | cut _ known => cases known
  | reached word _ _ verdict done => exact ⟨middle, loop_of_done _ _ _ done, .inr ⟨word, verdict⟩⟩
  | raised word finds reached =>
    obtain rfl := eq_of_travels_twoSteps finds.candidate.travels
    have high : (3 : Int) ≤ 2 * (twoSteps first second).largestEffect := reached
    omega
  | excluded word finds safe _ covers modulus _ searching =>
    obtain rfl := eq_of_travels_twoSteps finds.candidate.travels
    have spent : ∀ word, ¬ (atThree (twoSteps first second)).Finds middle word := by
      intro word again
      obtain rfl := eq_of_travels_twoSteps again.candidate.travels
      exact again.candidate.uncovered covers
    obtain ⟨final, -, progress, loop⟩ :=
      loop_atThree clock middle safe modulus searching small (short _)
    rw [loop]
    cases progress with
    | refuted _ verdict done => exact ⟨final, loop_of_done _ _ _ done, .inl verdict⟩
    | cut _ known => cases known
    | reached word finds | raised word finds | excluded word finds => exact (spent word finds).elim

/-- If the answer is that there is no run, then no word is a run. -/
theorem not_isRun_of_unreachable (solver : Solver sys) (clock : Clock) (fuel : Nat)
    (finished : solver.run clock fuel = some (.ok final))
    (answer : final.verdict = some .unreachable) (word : Word) : ¬ sys.IsRun word :=
  (sound_of_run finished).truthful.unreachable answer word

/-- One step down and one step up: the counter would drop below zero. -/
theorem unreachable_twoSteps : ∃ final,
    (atThree (twoSteps (-1) 1)).run (.whole fun _ => 0) 3 = some (.ok final) ∧
      final.verdict = some .unreachable ∧ ∀ word, ¬ (twoSteps (-1) 1).IsRun word := by
  obtain ⟨final, finished, answer | ⟨word, answer⟩⟩ :=
    run_atThree_twoSteps (-1) 1 (.whole fun _ => 0) (by decide)
  · exact ⟨final, finished, answer, not_isRun_of_unreachable _ _ 3 finished answer⟩
  · have run := ((sound_of_run finished).truthful.reachable word answer).1
    obtain ⟨-, natural, -⟩ := isRun_twoSteps_iff.1 run
    cases natural

/-- The run in the answer is the first of all runs, and it goes along live transitions. Whatever
settings, oracles, budget and clock lead to such an answer, the run is the same. -/
theorem isLeastRun_of_reachable (solver : Solver sys) (clock : Clock) (fuel : Nat)
    (finished : solver.run clock fuel = some (.ok final))
    (answer : final.verdict = some (.reachable word)) :
    sys.IsLeastRun word ∧ sys.Travels sys.initial word sys.final ∧
      ∀ (other : Solver sys) (clock : Clock) (fuel : Nat) (final : Session) (found : Word),
        other.run clock fuel = some (.ok final) → final.verdict = some (.reachable found) →
          found = word := by
  have least := (sound_of_run finished).truthful.reachable word answer
  refine ⟨least, least.1.travels, fun other clock fuel final found finished answer => ?_⟩
  exact ((sound_of_run finished).truthful.reachable found answer).eq least

/-- One step up and one step down. -/
theorem reachable_twoSteps : ∃ final,
    (atThree (twoSteps 1 (-1))).run (.whole fun _ => 0) 3 = some (.ok final) ∧
      final.verdict = some (.reachable [0, 1]) ∧ (twoSteps 1 (-1)).IsLeastRun [0, 1] := by
  have run : (twoSteps 1 (-1)).IsRun [0, 1] := isRun_twoSteps_iff.2 (by decide)
  obtain ⟨final, finished, answer | ⟨word, answer⟩⟩ :=
    run_atThree_twoSteps 1 (-1) (.whole fun _ => 0) (by decide)
  · exact absurd run ((sound_of_run finished).truthful.unreachable answer _)
  · have least := (isLeastRun_of_reachable _ _ 3 finished answer).1
    obtain ⟨rfl, -⟩ := isRun_twoSteps_iff.1 least.1
    exact ⟨final, finished, answer, least⟩

end Solver
end ZeroRun
