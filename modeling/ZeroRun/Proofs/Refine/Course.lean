import Mathlib
import ZeroRun.Proofs.Refine.Termination
import ZeroRun.Report.Result

/-! The course of a query: the sessions that it goes through, turn after turn. What the search
follows letter by letter agrees with what the replay computes from scratch, so no turn fails but for
a number with too many digits. And candidates only move forward if each modulus divides the next:
then the candidates of a later search are candidates of every earlier one, which has found the first
of them. -/
namespace ZeroRun

/-- Doubling, and taking common multiples, keeps the divisors of the modulus. -/
theorem ModulusPolicy.dvd_next {policy : ModulusPolicy} (multiplies : policy ≠ .increment)
    (modulus peak : Int) : modulus ∣ policy.next modulus peak := by
  cases policy with
  | double => exact Int.dvd_mul_right modulus 2
  | increment => exact absurd rfl multiplies
  | lcm =>
    unfold next
    dsimp only
    split
    · exact Int.dvd_lcm_left modulus (peak + 1)
    · exact Int.dvd_mul_right modulus 2

/-- A candidate stays one at a divisor of the modulus and with fewer exclusions. -/
theorem CounterSystem.Candidate.of_dvd {sys : CounterSystem} {modulus multiple : Int}
    {fewer more : ExclusionSet} {word : Word} (candidate : sys.Candidate multiple more word)
    (divides : modulus ∣ multiple) (grows : ∀ other, fewer.Covers other → more.Covers other) :
    sys.Candidate modulus fewer word where
  ne_nil := candidate.ne_nil
  travels := candidate.travels
  divides x mem := divides.trans (candidate.divides x mem)
  uncovered covered := candidate.uncovered (grows word covered)

namespace Round

/-- The candidate of the round has been certified to be no run. -/
def Spurious (round : Round) : Prop :=
  ∃ finding, round.finding = some finding ∧ finding.classification.isSpurious = true

/-- The word does not come before the candidate of the round, and after it if that is spurious. -/
def Admits (round : Round) (later : Word) : Prop :=
  ∀ word, round.candidate? = some word →
    ¬ Shortlex later word ∧ (round.Spurious → Shortlex word later)

end Round

namespace Solver
variable {sys : CounterSystem} {solver : Solver sys} {session next final : Session} {clock : Clock}
  {word : Word}

/-! ## Faults -/

/-- How a candidate is dealt with: it can be followed, its net effect is zero modulo the modulus, it
gets a finding, and what the finding certifies has not been recorded before, so it is recorded. -/
structure Handles (solver : Solver sys) (session : Session) (word : Word) (walk : Walk sys)
    (finding : Finding) : Prop where
  followed : Walk.ofWord sys word = .ok walk
  divides : ∀ x ∈ walk.replay.netEffect, session.modulus ∣ x
  classified : walk.classify session.modulus solver.loopOracle = .ok finding
  new_stem : ∀ stem, finding.stem? = some stem →
    (∀ earlier ∈ session.exclusions.trie.stems, ¬ earlier <+: stem) ∧
      ∃ more, session.exclusions.recordStem stem = .ok (true, more)
  new_loop : ∀ pattern, finding.loop? = some pattern →
    pattern ∉ session.exclusions.patterns ∧
      ∃ more, session.exclusions.recordLoop pattern = (true, more)

theorem Ready.handles (ready : Ready sys session)
    (candidate : sys.Candidate session.modulus session.exclusions word) :
    ∃ walk finding, solver.Handles session word walk finding := by
  obtain ⟨walk, followed, rfl⟩ := Walk.ofWord_of_travels candidate.travels
  obtain ⟨finding, classified, certified⟩ := walk.classify_certifies solver.loopOracle
    ready.two_le candidate.ne_nil candidate.travels candidate.divides
  have uncovered := candidate.uncovered
  refine ⟨walk, finding, followed, ?_, classified, ?_, ?_⟩
  · rw [walk.netEffect_replay]
    exact candidate.divides
  · intro stem known
    have stemmed : stem ≠ [] ∧ stem <+: walk.word := by
      cases finding with
      | negativeExcursion other | guardViolation other =>
        cases known
        exact ⟨certified.1, certified.2.1⟩
      | genuine | wrapOnlyLoop pattern | inconclusive => cases known
    obtain ⟨ne, begins⟩ := stemmed
    obtain ⟨more, recorded, -⟩ :=
      ExclusionSet.recordStem_of_not_covers ready.safe.trie ne begins uncovered
    refine ⟨fun earlier old shorter => ?_, more, recorded⟩
    exact uncovered (.inl ⟨earlier, old, shorter.trans begins⟩)
  · intro pattern known
    have holds : pattern.Holds walk.word := by
      cases finding with
      | wrapOnlyLoop other =>
        cases known
        exact certified.1
      | genuine | negativeExcursion stem | guardViolation stem | inconclusive => cases known
    exact ⟨fun old => uncovered (.inr ⟨pattern, old, holds⟩), _,
      ExclusionSet.recordLoop_of_not_covers holds uncovered⟩

/-- From a session that a query goes through, the only fault is a number with too many digits. -/
theorem Visits.stumbles_of_loop (two_le : 2 ≤ solver.settings.initialModulus) {fuel : Nat}
    {fault : Error} (visits : solver.Visits clock session)
    (failed : solver.loop clock fuel session = some (.error fault)) :
    fault = .unwritable ∧ solver.Stumbles clock := by
  induction fuel generalizing session with
  | zero => cases failed
  | succ fuel ih =>
    by_cases done : session.phase = .done
    · rw [loop_of_done _ _ _ done] at failed
      cases failed
    have ready := visits.ready two_le done
    rcases turn_cases solver clock session with
      ⟨-, limit, after, -, stops⟩ | ⟨begins, after, looks, round⟩
    · rw [loop_of_turn done stops] at failed
      exact ih (visits.turn done stops) failed
    have modulus := looks.unchanged Session.modulus fun _ => rfl
    have exclusions := looks.unchanged Session.exclusions fun _ => rfl
    have safe : after.exclusions.Safe sys := exclusions ▸ ready.safe
    have large : 2 ≤ after.modulus := modulus ▸ ready.two_le
    by_cases overlong : solver.Overlong after
    · obtain ⟨next, fails⟩ := iterate_of_overlong clock safe large overlong
      rw [loop_of_fault done (round.trans fails)] at failed
      cases failed
      exact ⟨rfl, session, visits, done, begins, overlong.of_alike modulus exclusions⟩
    · obtain ⟨next, iterated⟩ := exists_iterate clock safe large overlong
      rw [loop_of_turn done (round.trans iterated)] at failed
      exact ih (visits.turn done (round.trans iterated)) failed

theorem eq_unwritable_of_run (two_le : 2 ≤ solver.settings.initialModulus) {fuel : Nat}
    {fault : Error} (failed : solver.run clock fuel = some (.error fault)) :
    fault = .unwritable ∧ ¬ solver.Legible clock := by
  by_cases begins : ∃ session, solver.opening = .ok session
  · obtain ⟨session, begun⟩ := begins
    rw [run_of_opening begun] at failed
    obtain ⟨same, stumbles⟩ := Visits.stumbles_of_loop two_le (.opening begun) failed
    exact ⟨same, fun legible => legible.rounds stumbles⟩
  · rw [run_of_not_opening begins] at failed
    cases failed
    exact ⟨rfl, fun legible => begins legible.opens⟩

theorem exists_run_of_not_legible (two_le : 2 ≤ solver.settings.initialModulus)
    (illegible : ¬ solver.Legible clock) :
    ∃ fuel, solver.run clock fuel = some (.error .unwritable) := by
  by_cases begins : ∃ session, solver.opening = .ok session
  · by_contra endless
    exact illegible ⟨begins, fun stumbles => endless (stumbles.exists_run two_le)⟩
  · exact ⟨0, run_of_not_opening begins clock 0⟩

/-- A query fails exactly if it comes to a number with too many digits. In every session that it
goes through and that is not done, another round fails only for that: the grammar of the walks is
accepted, the search has an outcome, and the candidate it finds is dealt with. -/
theorem run_fails_iff (solver : Solver sys) (clock : Clock)
    (two_le : 2 ≤ solver.settings.initialModulus) :
    (∀ fuel fault, solver.run clock fuel = some (.error fault) → fault = .unwritable) ∧
      ((∃ fuel, solver.run clock fuel = some (.error .unwritable)) ↔ ¬ solver.Legible clock) ∧
      ∀ session, solver.Visits clock session → session.phase ≠ .done →
        (¬ solver.Overlong session → ∃ next, solver.iterate clock session = (next, none)) ∧
        (solver.Overlong session →
          ∃ next, solver.iterate clock session = (next, some .unwritable)) ∧
        solver.language.grammar.checkLeftRecursion = .ok () ∧
        ∃ space outcome, ResidueSpace.make session.modulus sys.dimension = .ok space ∧
          (solver.searchOf session space).run = .ok outcome ∧
          ∀ word, outcome.status = .found word →
            ∃ walk finding, solver.Handles session word walk finding := by
  refine ⟨fun fuel fault failed => (eq_unwritable_of_run two_le failed).1,
    ⟨fun ⟨fuel, failed⟩ => (eq_unwritable_of_run two_le failed).2,
      exists_run_of_not_legible two_le⟩, ?_⟩
  intro session visits running
  have ready := visits.ready two_le running
  obtain ⟨outcome, searched, settled⟩ := settles_search solver session
    ⟨session.modulus, sys.dimension, ready.two_le⟩ ready.safe rfl rfl
  refine ⟨exists_iterate clock ready.safe ready.two_le,
    iterate_of_overlong clock ready.safe ready.two_le,
    solver.language.checkLeftRecursion_grammar, _, outcome, make_eq ready.two_le _, searched,
    fun word status => ?_⟩
  rw [status] at settled
  exact ready.handles settled.1

open CounterSystem (downOrUp travels_downOrUp_iff detour halfBound)
open CandidateSearch (candidate_downOrUp_iff)

/-- As long as nothing is excluded, going down comes first. -/
theorem Finds.eq_downFirst {solver : Solver downOrUp} (finds : solver.Finds session word)
    (modulus : session.modulus = 3) (exclusions : session.exclusions = {}) : word = [0, 2] := by
  obtain ⟨candidate, -, least⟩ := finds
  rw [modulus, exclusions] at candidate least
  obtain ⟨mem, -⟩ := candidate_downOrUp_iff.1 candidate
  fin_cases mem
  · rfl
  · have first := least [0, 2] (candidate_downOrUp_iff.2 ⟨by decide, by simp [ExclusionSet.Covers]⟩)
    exact absurd (by decide) first

theorem opening_downOrUp : (atThree downOrUp).opening = .ok firstAtThree :=
  opening_eq (by decide +kernel) rfl

/-- The first candidate goes down, and is dealt with. -/
theorem run_fails_iff_downOrUp : ∃ space outcome walk finding,
    ResidueSpace.make 3 1 = .ok space ∧
      ((atThree downOrUp).searchOf firstAtThree space).run = .ok outcome ∧
      outcome.status = .found [0, 2] ∧
      (atThree downOrUp).Handles firstAtThree [0, 2] walk finding := by
  obtain ⟨-, -, rounds⟩ := run_fails_iff (atThree downOrUp) (.whole fun _ => 0) (by decide)
  obtain ⟨-, -, -, space, outcome, made, searched, handled⟩ :=
    rounds _ (.opening opening_downOrUp) nofun
  have three : space = ⟨3, 1, by decide⟩ := Except.ok.inj (made.symm.trans (make_eq (by decide) 1))
  have finds : (atThree downOrUp).Finds firstAtThree [0, 2] := by
    refine ⟨candidate_downOrUp_iff.2 ⟨by decide, by simp [ExclusionSet.Covers, firstAtThree]⟩,
      nofun, ?_⟩
    intro other candidate
    obtain ⟨mem, -⟩ := candidate_downOrUp_iff.1 candidate
    fin_cases mem <;> decide
  obtain ⟨again, same, status⟩ := finds.search (ExclusionSet.safe_empty _) space
    (by rw [three]; rfl) (by rw [three]; rfl)
  obtain rfl : outcome = again := Except.ok.inj (searched.symm.trans same)
  obtain ⟨walk, finding, handles⟩ := handled [0, 2] status
  exact ⟨space, outcome, walk, finding, made, searched, status, handles⟩

/-- A query that may go through one round fails in it. -/
theorem run_fails_detour :
    let solver : Solver (detour halfBound) :=
      { settings := { initialModulus := halfBound }, budget := { maxIterations := some 1 } }
    2 ≤ solver.settings.initialModulus ∧
      ∀ clock fuel, solver.run clock (fuel + 1) = some (.error .unwritable) := by
  intro solver
  refine ⟨by decide +kernel, fun clock => ?_⟩
  refine run_detour solver clock rfl (by decide +kernel) rfl rfl ⟨rfl, rfl, fun limit known => ?_⟩
    nofun (by decide +kernel)
  obtain rfl := Option.some.inj known
  decide

/-! ## Candidates move forward -/

/-- The candidates of a session so far are in order, and the candidates that may still be found
come after them. -/
structure Ascending (sys : CounterSystem) (session : Session) : Prop where
  ordered : session.rounds.Pairwise fun earlier later =>
    ∀ word, later.candidate? = some word → earlier.Admits word
  ahead : session.phase ≠ .done → ∀ round ∈ session.rounds, ∀ word,
    sys.Candidate session.modulus session.exclusions word → round.Admits word

/-- One more round, with a candidate of the session if any, keeps the order. -/
theorem Ascending.pairwise_append (ascending : Ascending sys session)
    (running : session.phase ≠ .done) {round : Round}
    (candidate : ∀ word, round.candidate? = some word →
      sys.Candidate session.modulus session.exclusions word) :
    (session.rounds ++ [round]).Pairwise fun earlier later =>
      ∀ word, later.candidate? = some word → earlier.Admits word := by
  refine List.pairwise_append.2 ⟨ascending.ordered, List.pairwise_singleton _ _, ?_⟩
  intro earlier old later mem word found
  obtain rfl := List.mem_singleton.1 mem
  exact ascending.ahead running earlier old word (candidate word found)

theorem Ascending.last (ascending : Ascending sys session) (running : session.phase ≠ .done)
    {status : SearchStatus} {finding : Option Finding} (logs : Logs session next status finding)
    (candidate : ∀ word, status.word? = some word →
      sys.Candidate session.modulus session.exclusions word)
    (done : next.phase = .done) : Ascending sys next := by
  obtain ⟨round, rounds, rfl, -⟩ := logs
  refine ⟨?_, fun running => absurd done running⟩
  rw [rounds]
  exact ascending.pairwise_append running candidate

/-- The candidates that are left after a round have been candidates before it. So they do not come
before the one it has found, which is none of them if it is excluded. -/
theorem Ascending.further (ascending : Ascending sys session) (running : session.phase ≠ .done)
    (finds : solver.Finds session word) {finding : Finding}
    (logs : Logs session next (.found word) (some finding))
    (divides : session.modulus ∣ next.modulus)
    (grows : ∀ other, session.exclusions.Covers other → next.exclusions.Covers other)
    (covers : finding.classification.isSpurious = true → next.exclusions.Covers word) :
    Ascending sys next := by
  obtain ⟨round, rounds, status, found⟩ := logs
  have found_word : round.candidate? = some word := congrArg SearchStatus.word? status
  constructor
  · rw [rounds]
    refine ascending.pairwise_append running fun other same => ?_
    obtain rfl := Option.some.inj (found_word.symm.trans same)
    exact finds.candidate
  · intro _ earlier mem later left
    have before := left.of_dvd divides grows
    rw [rounds, List.mem_append, List.mem_singleton] at mem
    rcases mem with old | rfl
    · exact ascending.ahead running earlier old later before
    · intro other same
      obtain rfl := Option.some.inj (found_word.symm.trans same)
      refine ⟨finds.least later before, fun spurious => ?_⟩
      obtain ⟨certificate, known, certified⟩ := spurious
      obtain rfl := Option.some.inj (found.symm.trans known)
      by_contra not_after
      obtain rfl := eq_of_not_shortlex not_after (finds.least later before)
      exact left.uncovered (covers certified)

theorem Progress.ascending (progress : solver.Progress session next)
    (multiplies : solver.settings.policy ≠ .increment) (running : session.phase ≠ .done)
    (ascending : Ascending sys session) : Ascending sys next := by
  cases progress with
  | refuted _ _ done logs | cut _ _ _ _ done logs => exact ascending.last running logs nofun done
  | reached word finds run verdict done logs =>
    refine ascending.last running logs (fun other same => ?_) done
    obtain rfl := Option.some.inj same
    exact finds.candidate
  | excluded word finds safe grows covers modulus _ _ finding _ logs =>
    exact ascending.further running finds logs (modulus ▸ dvd_rfl) grows fun _ => covers
  | raised word finds _ exclusions _ _ _ walk _ raises logs =>
    refine ascending.further running finds logs ?_ (fun other covered => ?_) nofun
    · rw [raises]
      exact ModulusPolicy.dvd_next multiplies session.modulus walk.peak
    · rwa [exclusions]

theorem Visits.ascending (two_le : 2 ≤ solver.settings.initialModulus)
    (multiplies : solver.settings.policy ≠ .increment) (visits : solver.Visits clock session) :
    Ascending sys session := by
  induction visits with
  | opening begun =>
    have none := (opens_of_opening begun).rounds
    exact ⟨none ▸ .nil, fun _ round mem => by simp [none] at mem⟩
  | turn before running turned ih =>
    cases (before.ready two_le running).turns turned with
    | stopped done rounds =>
      refine ⟨?_, fun running => absurd done running⟩
      rw [rounds]
      exact ih.ordered
    | advanced progress => exact progress.ascending multiplies running ih

/-- If the modulus is doubled, or raised to a common multiple, candidates only move forward, and
away from those that were certified to be no runs. So the lengths in the records never decrease. -/
theorem candidates_move_forward (two_le : 2 ≤ solver.settings.initialModulus)
    (multiplies : solver.settings.policy ≠ .increment) (visits : solver.Visits clock session) :
    session.rounds.Pairwise (fun earlier later =>
      ∀ u v, earlier.candidate? = some u → later.candidate? = some v →
        ¬ Shortlex v u ∧ (earlier.Spurious → Shortlex u v)) ∧
      (session.rounds.map Round.record).Pairwise fun earlier later =>
        ∀ m n, earlier.candidateLength = some m → later.candidateLength = some n → m ≤ n := by
  have ordered := (visits.ascending two_le multiplies).ordered
  constructor
  · exact ordered.imp fun admits u v found later => admits v later u found
  · refine List.pairwise_map.2 (ordered.imp fun {earlier later} admits m n => ?_)
    intro measured measured'
    simp only [Round.record, Round.length?, Option.map_map, Option.map_eq_some_iff,
      Function.comp_apply] at measured measured'
    obtain ⟨u, found, rfl⟩ := measured
    obtain ⟨v, found', rfl⟩ := measured'
    exact_mod_cast length_le_of_not_shortlex (admits v found' u found).1

theorem not_isRun_downFirst : ¬ downOrUp.IsRun [0, 2] := by
  intro run
  have leads : downOrUp.Leads (.int 0) [0] (CounterSystem.spell
      [(0, ⟨.int 0, .int 1, [-1], .absent, .always⟩), (2, ⟨.int 1, .int 2, [1], .absent, .always⟩)])
      (.int 2) [0] := run.2
  have fires := leads.fires (by decide)
  exact absurd fires.2.1 (by decide)

theorem isRun_upFirst : downOrUp.IsRun [1, 3] :=
  ⟨by decide,
    .cons 1 ⟨.int 0, .int 1, [1], .absent, .always⟩ [0] rfl rfl (by decide)
      (.cons 3 ⟨.int 1, .int 2, [-1], .absent, .always⟩ [1] rfl rfl (by decide) (.nil _ _))⟩

/-- A round at modulus three finds a run or excludes a walk: there is a run to be found, and the
counter stays below the modulus. -/
theorem Progress.cases_downOrUp (progress : (atThree downOrUp).Progress session next)
    (safe : session.exclusions.Safe downOrUp) (modulus : session.modulus = 3) :
    ∃ word finding, (atThree downOrUp).Finds session word ∧
      Logs session next (.found word) (some finding) ∧
      (downOrUp.IsRun word ∧ next.phase = .done ∨
        finding.classification.isSpurious = true ∧ next.exclusions.Safe downOrUp ∧
          next.exclusions.Covers word ∧ next.modulus = 3 ∧ next.phase = .searching) := by
  cases progress with
  | refuted none => exact absurd (safe.candidate_of_isRun _ isRun_upFirst) (none [1, 3])
  | cut limit known => cases known
  | reached word finds run _ done logs => exact ⟨word, _, finds, logs, .inl ⟨run, done⟩⟩
  | excluded word finds more _ covers same _ searching finding spurious logs =>
    exact ⟨word, finding, finds, logs,
      .inr ⟨spurious, more, covers, same.trans modulus, searching⟩⟩
  | raised word finds reached =>
    have mem := travels_downOrUp_iff.1 finds.candidate.travels
    rw [modulus] at reached
    fin_cases mem <;> exact absurd reached (by decide)

/-- The step down is excluded in the first round, and in the second the walk that goes up first
is found to be a run. -/
theorem rounds_atThree_downOrUp (clock : Clock) : ∃ final first second,
    (atThree downOrUp).run clock 3 = some (.ok final) ∧ final.rounds = [first, second] ∧
      first.candidate? = some [0, 2] ∧ first.Spurious ∧ second.candidate? = some [1, 3] := by
  have start := ExclusionSet.safe_empty downOrUp
  have short : ∀ session word, (atThree downOrUp).Finds session word → word.length ≤ 2 := by
    intro session word finds
    have mem := travels_downOrUp_iff.1 finds.candidate.travels
    fin_cases mem <;> decide
  obtain ⟨middle, -, progress, loop⟩ :=
    loop_atThree clock firstAtThree start rfl rfl (by decide) (short _)
  obtain ⟨word, finding, finds, ⟨first, rounds, status, found⟩, kind⟩ :=
    progress.cases_downOrUp start rfl
  obtain rfl := finds.eq_downFirst rfl rfl
  rcases kind with ⟨run, -⟩ | ⟨spurious, safe, covers, modulus, searching⟩
  · exact absurd run not_isRun_downFirst
  obtain ⟨final, -, progress', loop'⟩ :=
    loop_atThree clock middle safe modulus searching (by decide) (short _)
  obtain ⟨word', finding', finds', ⟨second, rounds', status', -⟩, kind'⟩ :=
    progress'.cases_downOrUp safe modulus
  obtain rfl : word' = [1, 3] := by
    obtain ⟨candidate, -, -⟩ := finds'
    rw [modulus] at candidate
    obtain ⟨mem, uncovered⟩ := candidate_downOrUp_iff.1 candidate
    fin_cases mem
    · exact absurd covers uncovered
    · rfl
  rcases kind' with ⟨-, done⟩ | ⟨-, safe', covers', -⟩
  · refine ⟨final, first, second, ?_, ?_, congrArg SearchStatus.word? status,
      ⟨finding, found, spurious⟩, congrArg SearchStatus.word? status'⟩
    · rw [run_of_opening opening_downOrUp, loop, loop', loop_of_done _ _ _ done]
    · rw [rounds', rounds]
      rfl
  · exact absurd covers' (safe'.keeps_runs _ isRun_upFirst)

/-- Going up comes after going down, which is excluded. -/
theorem candidates_move_forward_downOrUp : ∃ final first second,
    (atThree downOrUp).run (.whole fun _ => 0) 3 = some (.ok final) ∧
      final.rounds = [first, second] ∧ first.candidate? = some [0, 2] ∧ first.Spurious ∧
      second.candidate? = some [1, 3] ∧ Shortlex [0, 2] [1, 3] := by
  obtain ⟨final, first, second, finished, rounds, down, spurious, up⟩ :=
    rounds_atThree_downOrUp (.whole fun _ => 0)
  have forward := (candidates_move_forward (by decide) (by decide)
    (visits_of_run finished).1).1
  rw [rounds] at forward
  have ordered := List.rel_of_pairwise_cons forward List.mem_cons_self [0, 2] [1, 3] down up
  exact ⟨final, first, second, finished, rounds, down, spurious, up, ordered.2 spurious⟩

end Solver
end ZeroRun
