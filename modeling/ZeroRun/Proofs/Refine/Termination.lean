import Mathlib
import ZeroRun.Proofs.Refine.Answer

/-! A query ends if its candidates stay below some length. A round that does not end it excludes a
walk that was not excluded before, or raises a modulus that was at most the length times the largest
effect. There are only so many walks and moduli of this kind. Candidates stay short if there is a
run, since no candidate comes after it, and if the budget bounds their length.

A query can also end because it has to write a number with too many digits. A modulus gets as large
as that if counters do, so the answer may be missed, but only then. -/
namespace ZeroRun

/-- The number of rounds that is enough for all candidates up to a length. -/
def CounterSystem.roundBound (sys : CounterSystem) (length : Nat) : Nat :=
  sys.walkCount length + (length * sys.largestEffect - 1) + 1

/-! ## A system with a large number -/

namespace CounterSystem

/-- One step up, and a detour that changes nothing. -/
def detour (height : Nat) : CounterSystem where
  states := [.int 3, .int 4, .int 5]
  dimension := 1
  declaredDimension := .int 1
  transitions :=
    [⟨.int 3, .int 4, [(height : Int)], .absent, .always⟩,
      ⟨.int 3, .int 5, [0], .absent, .always⟩, ⟨.int 5, .int 4, [0], .absent, .always⟩]
  initial := .int 3
  final := .int 4
  live := [true, true, true]
  nodup_states := by decide
  initial_mem := by decide
  final_mem := by decide
  fits := by simp [Transition.Fits, Guard.always]
  live_length := by simp
  dead_never_fires index t _ dead := by simpa using List.mem_of_getElem? dead

variable {height : Nat}

theorem isWritable_detour : (detour height).isWritable = true :=
  have same : (detour height).isWritable = (detour 0).isWritable := rfl
  same.trans (by decide +kernel)

theorem isRun_detour : (detour height).IsRun [1, 2] :=
  ⟨by decide,
    .cons 1 ⟨.int 3, .int 5, [0], .absent, .always⟩ [0] rfl rfl (by decide)
      (.cons 2 ⟨.int 5, .int 4, [0], .absent, .always⟩ [0] rfl rfl (by decide) (.nil _ _))⟩

theorem walksOfLength_detour :
    (detour height).walksOfLength 1 (.int 3) = [[0]] := by
  simp [walksOfLength, detour, liveTransitions]

/-- The step up. -/
def stepUp (height : Nat) : Walk (detour height) where
  steps := [(0, ⟨.int 3, .int 4, [(height : Int)], .absent, .always⟩)]
  valid := ⟨rfl, rfl, trivial⟩

theorem netEffect_stepUp : (stepUp height).replay.netEffect = [(height : Int)] := by
  simp [Walk.replay, Replay.netEffect, Replay.ofTransitions, Replay.step, stepUp, zero, detour,
    Counters.zero, Counters.add]

theorem classify_stepUp (oracle : Linear.Oracle) (positive : 0 < height) :
    (stepUp height).classify height oracle = .ok .inconclusive := by
  have natural : ¬ (height : Int) < 0 := by omega
  have block : (stepUp height).replay.firstBlock = none := by
    simp [natural, Walk.replay, Replay.firstBlock, Replay.ofTransitions, Replay.step, stepUp, zero,
      detour, Counters.zero, Counters.add, Guard.holds, Guard.always]
  have loops : (stepUp height).wrapOnlyLoop? oracle = .ok none := rfl
  have unbalanced : Counters.isZero [(height : Int)] = false := by
    simp [Counters.isZero]; omega
  simp [Walk.classify, Walk.classifyLoop, netEffect_stepUp, block, loops, unbalanced]
  omega
/-- Half of the least number with too many digits. -/
def halfBound : Nat :=
  5 * 10 ^ 4299

end CounterSystem

/-! ## Queries that end -/

namespace Solver
variable {sys : CounterSystem} {solver : Solver sys} {session next : Session} {length : Nat}
  {clock : Clock} {word : Word}
open CounterSystem (twoSteps isRun_twoSteps_iff isWritable_twoSteps detour isRun_detour halfBound)

/-- The walks up to a length that have not been excluded. -/
def openWalks (sys : CounterSystem) (length : Nat) (exclusions : ExclusionSet) : Finset Word :=
  (sys.walksUpTo length).toFinset.filter fun word => exclusions.excludes word = false

/-- How many walks up to a length can still be excluded, and how often the modulus can still be
raised. -/
def remaining (sys : CounterSystem) (length : Nat) (session : Session) : Nat :=
  (openWalks sys length session.exclusions).card +
    (length * sys.largestEffect + 1 - session.modulus).toNat

theorem mem_openWalks {exclusions : ExclusionSet} (safe : exclusions.Safe sys) :
    word ∈ openWalks sys length exclusions ↔
      word ∈ sys.walksUpTo length ∧ ¬ exclusions.Covers word := by
  rw [openWalks, Finset.mem_filter, List.mem_toFinset, ← ExclusionSet.excludes_iff safe.trie,
    Bool.not_eq_true]

theorem Finds.mem_openWalks (finds : solver.Finds session word)
    (safe : session.exclusions.Safe sys) (short : word.length ≤ length) :
    word ∈ openWalks sys length session.exclusions :=
  (Solver.mem_openWalks safe).2
    ⟨CounterSystem.mem_walksUpTo.2 ⟨finds.candidate.ne_nil, short, finds.candidate.travels⟩,
      finds.candidate.uncovered⟩

/-- What holds of a session before a round. -/
structure Ready (sys : CounterSystem) (session : Session) : Prop where
  safe : session.exclusions.Safe sys
  two_le : 2 ≤ session.modulus
  running : session.phase ≠ .done

/-- After a round that does not end the query comes another one. -/
theorem Progress.ready (progress : solver.Progress session next) (ready : Ready sys session)
    (running : next.phase ≠ .done) : Ready sys next := by
  cases progress with
  | refuted _ _ done | cut _ _ _ _ done | reached _ _ _ _ done => exact absurd done running
  | excluded word finds safe grows covers modulus =>
    exact ⟨safe, modulus ▸ ready.two_le, running⟩
  | raised word finds reached exclusions modulus =>
    exact ⟨exclusions ▸ ready.safe, ready.two_le.trans modulus.le, running⟩

/-- A round that does not end the query leaves less to do. -/
theorem Progress.remaining_lt (progress : solver.Progress session next)
    (ready : Ready sys session)
    (short : ∀ word, solver.Finds session word → word.length ≤ length)
    (running : next.phase ≠ .done) : remaining sys length next < remaining sys length session := by
  cases progress with
  | refuted _ _ done | cut _ _ _ _ done | reached _ _ _ _ done => exact absurd done running
  | excluded word finds safe grows covers modulus =>
    have fewer :
        openWalks sys length next.exclusions ⊂ openWalks sys length session.exclusions := by
      refine (Finset.ssubset_iff_of_subset fun other mem => ?_).2
        ⟨word, finds.mem_openWalks ready.safe (short word finds), fun mem => ?_⟩
      · obtain ⟨walk, uncovered⟩ := (mem_openWalks safe).1 mem
        exact (mem_openWalks ready.safe).2 ⟨walk, fun covered => uncovered (grows other covered)⟩
      · exact ((mem_openWalks safe).1 mem).2 covers
    have := Finset.card_lt_card fewer
    rw [remaining, remaining, modulus]
    omega
  | raised word finds reached exclusions modulus =>
    have below : (word.length * sys.largestEffect : Int) ≤ length * sys.largestEffect := by
      have := short word finds
      gcongr
    rw [remaining, remaining, exclusions]
    omega

/-! ## Turns -/

/-- What a turn can do. -/
inductive Turns (solver : Solver sys) (session next : Session) : Prop where
  | stopped (done : next.phase = .done) (rounds : next.rounds = session.rounds)
  | advanced (progress : solver.Progress session next)

/-- A turn without a fault stops at a ceiling or goes through a round. -/
theorem Ready.turns (ready : Ready sys session)
    (turned : solver.turn clock session = (next, none)) : solver.Turns session next := by
  rcases turn_cases solver clock session with
    ⟨-, limit, after, looks, stops⟩ | ⟨-, after, looks, round⟩
  · rw [stops] at turned
    cases turned
    exact .stopped rfl (looks.unchanged Session.rounds fun _ => rfl)
  · rw [round] at turned
    have modulus := looks.unchanged Session.modulus fun _ => rfl
    have exclusions := looks.unchanged Session.exclusions fun _ => rfl
    obtain ⟨progress, -⟩ := progress_of_iterate (exclusions ▸ ready.safe)
      (modulus ▸ ready.two_le) turned
    exact .advanced (progress.of_alike modulus exclusions
      (looks.unchanged Session.verdict fun _ => rfl) (looks.unchanged Session.rounds fun _ => rfl))

/-- A session that a query goes through is ready for another round, unless it is done. -/
theorem Visits.ready (two_le : 2 ≤ solver.settings.initialModulus)
    (visits : solver.Visits clock session) (running : session.phase ≠ .done) :
    Ready sys session := by
  induction visits with
  | opening begun =>
    have opens := opens_of_opening begun
    refine ⟨?_, ?_, running⟩
    · rw [opens.exclusions]
      exact ExclusionSet.safe_empty sys
    · rwa [opens.modulus]
  | turn before still turned ih =>
    cases (ih still).turns turned with
    | stopped done => exact absurd done running
    | advanced progress => exact progress.ready (ih still) running

/-! ## Numbers with too many digits -/

/-- A round of the query has to write a number with too many digits. -/
def Stumbles (solver : Solver sys) (clock : Clock) : Prop :=
  ∃ session, solver.Visits clock session ∧ session.phase ≠ .done ∧
    solver.Begins clock session ∧ solver.Overlong session

/-- Every number that a query comes to write can be written. -/
structure Legible (solver : Solver sys) (clock : Clock) : Prop where
  opens : ∃ session, solver.opening = .ok session
  rounds : ¬ solver.Stumbles clock

/-- A query that stumbles fails, if there is fuel enough. -/
theorem Stumbles.exists_run (stumbles : solver.Stumbles clock)
    (two_le : 2 ≤ solver.settings.initialModulus) :
    ∃ fuel, solver.run clock fuel = some (.error .unwritable) := by
  obtain ⟨session, visits, running, begins, overlong⟩ := stumbles
  have ready := visits.ready two_le running
  obtain ⟨turns, reaches⟩ := visits.exists_run_eq_loop
  rcases turn_cases solver clock session with ⟨stopped, -⟩ | ⟨-, after, looks, round⟩
  · exact absurd begins stopped
  · have modulus := looks.unchanged Session.modulus fun _ => rfl
    have exclusions := looks.unchanged Session.exclusions fun _ => rfl
    obtain ⟨next, failed⟩ := iterate_of_overlong clock (exclusions ▸ ready.safe)
      (modulus ▸ ready.two_le) (overlong.of_alike modulus.symm exclusions.symm)
    refine ⟨1 + turns, ?_⟩
    rw [reaches, loop_of_fault running (round.trans failed)]

/-- If the candidates stay short and the first modulus has few digits, every number that the query
comes to write can be written. -/
theorem legible_of_short (two_le : 2 ≤ solver.settings.initialModulus)
    (opens : ∃ session, solver.opening = .ok session)
    (short : ∀ session, session.exclusions.Safe sys → ∀ word, solver.Finds session word →
      word.length ≤ length)
    (first : Decimal.isWritable solver.settings.initialModulus = true)
    (bound : Decimal.isWritable (sys.numberBound length) = true) (clock : Clock) :
    solver.Legible clock := by
  refine ⟨opens, ?_⟩
  rintro ⟨session, visits, running, -, overlong⟩
  have modulus : Decimal.isWritable session.modulus = true := by
    clear overlong
    induction visits with
    | opening begun => rwa [(opens_of_opening begun).modulus]
    | turn before still turned ih =>
      have ready := before.ready two_le still
      cases ready.turns turned with
      | stopped done => exact absurd done running
      | advanced progress =>
        cases progress with
        | refuted _ _ done | cut _ _ _ _ done | reached _ _ _ _ done => exact absurd done running
        | excluded _ _ _ _ _ same => rw [same, ih still]
        | raised _ finds _ _ _ _ _ walk spells raises _ high =>
          rw [raises]
          exact isWritable_next _ ready.two_le high (spells ▸ short _ ready.safe _ finds) bound
  have ready := visits.ready two_le running
  exact not_overlong ready.two_le modulus (short session ready.safe) bound overlong

/-! ## The last round -/

/-- If the candidates stay short, the query ends with a last round or stumbles. -/
theorem exists_last_round {rounds : Nat} (allows : solver.budget.Allows rounds)
    (short : ∀ session, session.exclusions.Safe sys → ∀ word, solver.Finds session word →
      word.length ≤ length)
    (visits : solver.Visits clock session) (ready : Ready sys session)
    (early : session.iteration + remaining sys length session < rounds)
    (fuel : Nat) (enough : remaining sys length session + 2 ≤ fuel) :
    (∃ last final, last.exclusions.Safe sys ∧ solver.Progress last final ∧ final.phase = .done ∧
      final.iteration ≤ rounds ∧ solver.loop clock fuel session = some (.ok final)) ∨
    (solver.Stumbles clock ∧ solver.loop clock fuel session = some (.error .unwritable)) := by
  induction fuel generalizing session with
  | zero => omega
  | succ fuel ih =>
    have soon : session.iteration < rounds := by omega
    obtain ⟨begins, round⟩ := turn_eq_iterate allows soon clock
    by_cases overlong : solver.Overlong session
    · obtain ⟨next, failed⟩ := iterate_of_overlong clock ready.safe ready.two_le overlong
      exact .inr ⟨⟨session, visits, ready.running, begins, overlong⟩,
        loop_of_fault ready.running (round.trans failed)⟩
    obtain ⟨next, turned, progress, counted, loop⟩ :=
      loop_progress allows soon ready.running ready.safe ready.two_le clock overlong
    rw [loop]
    by_cases done : next.phase = .done
    · obtain ⟨fuel, rfl⟩ := Nat.exists_eq_succ_of_ne_zero (by omega : fuel ≠ 0)
      exact .inl ⟨session, next, ready.safe, progress, done, by omega, loop_of_done _ _ _ done⟩
    · have less := progress.remaining_lt ready (short session ready.safe) done
      exact ih (visits.turn ready.running turned) (progress.ready ready done) (by omega) (by omega)

/-- At the start all walks are open. -/
theorem Opens.remaining_le (opens : solver.Opens session) (length : Nat)
    (two_le : 2 ≤ solver.settings.initialModulus) :
    remaining sys length session + 1 ≤ sys.roundBound length := by
  have walks : (openWalks sys length session.exclusions).card ≤ sys.walkCount length :=
    calc (openWalks sys length session.exclusions).card
        ≤ (sys.walksUpTo length).toFinset.card := Finset.card_filter_le _ _
      _ = sys.walkCount length := List.toFinset_card_of_nodup (CounterSystem.nodup_walksUpTo length)
  have moduli : (length * sys.largestEffect + 1 - session.modulus : Int).toNat ≤
      length * sys.largestEffect - 1 := by
    rw [opens.modulus]
    omega
  rw [remaining, CounterSystem.roundBound]
  omega

/-- A query that comes to an answer has written all of its numbers. -/
theorem legible_of_run {final : Session} {fuel : Nat}
    (two_le : 2 ≤ solver.settings.initialModulus)
    (finished : solver.run clock fuel = some (.ok final)) : solver.Legible clock := by
  constructor
  · obtain ⟨session, begun, -⟩ := loop_of_run finished
    exact ⟨session, begun⟩
  · intro stumbles
    obtain ⟨turns, failed⟩ := stumbles.exists_run two_le
    cases run_unique finished failed

/-- If the candidates stay short, the query ends: with the answer of the integer check, with a last
round, or with a number that cannot be written. -/
theorem run_ends (two_le : 2 ≤ solver.settings.initialModulus)
    (allows : solver.budget.Allows (sys.roundBound length))
    (short : ∀ session, session.exclusions.Safe sys → ∀ word, solver.Finds session word →
      word.length ≤ length) (clock : Clock) :
    (∃ final, solver.run clock (sys.roundBound length + 1) = some (.ok final) ∧
      final.iteration ≤ sys.roundBound length ∧
      (final.verdict = some .unreachable ∨ ∃ last, last.exclusions.Safe sys ∧
        solver.Progress last final ∧ final.phase = .done)) ∨
    (¬ solver.Legible clock ∧
      solver.run clock (sys.roundBound length + 1) = some (.error .unwritable)) := by
  by_cases begins : ∃ session, solver.opening = .ok session
  · obtain ⟨session, begun⟩ := begins
    have opens := opens_of_opening begun
    have start := opens.iteration
    rw [run_of_opening begun]
    rcases opens.answer with ⟨-, done, verdict⟩ | ⟨-, searching, -⟩
    · exact .inl ⟨session, loop_of_done _ _ _ done, by omega, .inl verdict⟩
    · have few := opens.remaining_le length two_le
      have visits : solver.Visits clock session := .opening begun
      rcases exists_last_round allows short visits (visits.ready two_le (by simp [searching]))
        (by omega) (sys.roundBound length + 1) (by omega) with
        ⟨last, final, safe, progress, done, rounds, finished⟩ | ⟨stumbles, failed⟩
      · exact .inl ⟨final, finished, rounds, .inr ⟨last, safe, progress, done⟩⟩
      · exact .inr ⟨fun legible => legible.rounds stumbles, failed⟩
  · exact .inr ⟨fun legible => begins legible.opens, run_of_not_opening begins _ _⟩

/-! ## Queries that end -/

/-- No candidate comes after a run, so it is not longer. -/
theorem Finds.length_le_of_isRun {run : Word} (finds : solver.Finds session word)
    (safe : session.exclusions.Safe sys) (isRun : sys.IsRun run) : word.length ≤ run.length :=
  length_le_of_not_shortlex (finds.least run (safe.candidate_of_isRun _ isRun))

/-- If there is a run, the budget does not forbid it and all numbers on the way can be written, then
a run is found. The number of rounds is bounded by the walks that are not longer than the run and by
the moduli that their counters can reach. Otherwise the query fails at a number with too many
digits. There is none if the first modulus and the square of what the counters can reach are short
enough. -/
theorem exists_reachable_of_isRun (solver : Solver sys) (clock : Clock) (run : sys.IsRun word)
    (two_le : 2 ≤ solver.settings.initialModulus)
    (allows : solver.budget.Allows (sys.roundBound word.length))
    (far : ∀ limit, solver.budget.maxPathLength = some limit → word.length ≤ limit) :
    (solver.Legible clock →
      ∃ final found, solver.run clock (sys.roundBound word.length + 1) = some (.ok final) ∧
        final.verdict = some (.reachable found) ∧ final.iteration ≤ sys.roundBound word.length) ∧
    (¬ solver.Legible clock →
      solver.run clock (sys.roundBound word.length + 1) = some (.error .unwritable)) ∧
    (sys.isWritable = true →
      (solver.settings.precheck.enabled = true → ∃ result, solver.integerCheck = .ok result) →
      Decimal.isWritable solver.settings.initialModulus = true →
      Decimal.isWritable (sys.numberBound word.length) = true → solver.Legible clock) := by
  have short : ∀ session, session.exclusions.Safe sys → ∀ found, solver.Finds session found →
      found.length ≤ word.length :=
    fun session safe found finds => finds.length_le_of_isRun safe run
  refine and_assoc.1 ⟨?_, fun writable checked first bound =>
    legible_of_short two_le (exists_opening writable checked) short first bound clock⟩
  rcases run_ends two_le allows short clock with ⟨final, finished, rounds, ended⟩ | ⟨stuck, failed⟩
  · refine ⟨fun _ => ?_, fun stuck => absurd (legible_of_run two_le finished) stuck⟩
    rcases ended with answer | ⟨last, safe, progress, done⟩
    · exact absurd run ((sound_of_run finished).truthful.unreachable answer word)
    have candidate := safe.candidate_of_isRun last.modulus run
    cases progress with
    | refuted none => exact absurd candidate (none word)
    | cut limit known beyond => exact absurd (far limit known) (not_le.2 (beyond word candidate))
    | reached found finds isRun verdict => exact ⟨final, found, finished, verdict, rounds⟩
    | excluded _ _ _ _ _ _ _ searching | raised _ _ _ _ _ _ searching =>
      rw [done] at searching
      cases searching
  · exact ⟨fun legible => absurd legible stuck, fun _ => failed⟩

theorem roundBound_twoSteps : (twoSteps 1 (-1)).roundBound 2 = 3 := by
  decide

/-- One step up and one step down, with the integer check and with just enough budget. -/
theorem exists_reachable_twoSteps :
    let solver : Solver (twoSteps 1 (-1)) :=
      { settings := { policy := .lcm, precheck := { enabled := true } }
        budget := { maxIterations := some 3, maxPathLength := some 2 } }
    solver.Legible (.whole fun _ => 0) ∧
      ∃ final found, solver.run (.whole fun _ => 0) 4 = some (.ok final) ∧
        final.verdict = some (.reachable found) ∧ final.iteration ≤ 3 := by
  intro solver
  have run : (twoSteps 1 (-1)).IsRun [0, 1] := isRun_twoSteps_iff.2 (by decide)
  have allows : solver.budget.Allows ((twoSteps 1 (-1)).roundBound 2) := by
    refine ⟨rfl, rfl, fun limit known => ?_⟩
    obtain rfl := Option.some.inj known
    rw [roundBound_twoSteps]
    decide
  have far : ∀ limit, solver.budget.maxPathLength = some limit → (2 : Int) ≤ limit :=
    fun limit known => (Option.some.inj known).le
  obtain ⟨found, -, legible⟩ :=
    exists_reachable_of_isRun solver (.whole fun _ => 0) run (by decide) allows far
  have checked : ∃ result, solver.integerCheck = .ok result := ⟨_, if_pos (by decide +kernel)⟩
  have legible : solver.Legible (.whole fun _ => 0) := legible isWritable_twoSteps
    (fun _ => checked) (by decide +kernel) (by decide +kernel)
  rw [show ([0, 1] : Word).length = 2 from rfl, roundBound_twoSteps] at found
  exact ⟨legible, found legible⟩

/-! ## A number with too many digits -/

section
open CounterSystem
variable {height : Nat}

/-- The step up comes first if the modulus is as high. -/
theorem finds_stepUp (solver : Solver (detour height)) (modulus : session.modulus = height)
    (exclusions : session.exclusions = {})
    (far : ∀ limit, solver.budget.maxPathLength = some limit → 1 ≤ limit) :
    solver.Finds session (stepUp height).word where
  candidate := by
    rw [modulus, exclusions]
    refine ⟨List.cons_ne_nil _ _, ?_, ?_, by simp [ExclusionSet.Covers]⟩
    · have listed : [0] ∈ (detour height).walksOfLength 1 (.int 3) := by
        simp [walksOfLength_detour]
      exact (mem_walksOfLength.1 listed).2
    · rw [← (stepUp height).netEffect_replay, netEffect_stepUp]
      simp
  within := far
  least other candidate := by
    rintro (shorter | ⟨same, before⟩)
    · exact candidate.ne_nil (List.length_eq_zero_iff.1 (Nat.lt_one_iff.1 shorter))
    · have listed : other ∈ (detour height).walksOfLength 1 (.int 3) :=
        mem_walksOfLength.2 ⟨same, candidate.travels⟩
      rw [walksOfLength_detour, List.mem_singleton] at listed
      rw [listed] at before
      exact lt_irrefl _ before

/-- The step up is found and leads to a modulus with too many digits. -/
theorem overlong_detour (solver : Solver (detour height)) (modulus : session.modulus = height)
    (exclusions : session.exclusions = {})
    (far : ∀ limit, solver.budget.maxPathLength = some limit → 1 ≤ limit) (positive : 0 < height)
    (doubles : solver.settings.policy = .double)
    (long : Decimal.isWritable ((height : Int) * 2) = false) : solver.Overlong session := by
  have classified := classify_stepUp solver.loopOracle positive
  rw [← modulus] at classified
  refine .raised (stepUp height) (finds_stepUp solver modulus exclusions far) classified ?_
  rw [doubles, modulus]
  exact long

/-- A query that starts at this modulus fails in its first round. -/
theorem run_detour (solver : Solver (detour height)) (clock : Clock)
    (modulus : solver.settings.initialModulus = height) (two_le : 2 ≤ height)
    (doubles : solver.settings.policy = .double)
    (unchecked : solver.settings.precheck.enabled = false) (allows : solver.budget.Allows 1)
    (far : ∀ limit, solver.budget.maxPathLength = some limit → 1 ≤ limit)
    (long : Decimal.isWritable ((height : Int) * 2) = false) (fuel : Nat) :
    solver.run clock (fuel + 1) = some (.error .unwritable) := by
  have begun := opening_eq isWritable_detour unchecked
  have two_le : 2 ≤ solver.settings.initialModulus := by
    rw [modulus]
    exact_mod_cast two_le
  have overlong : solver.Overlong
      { modulus := solver.settings.initialModulus, phase := .searching, ticks := 1 } :=
    overlong_detour solver modulus rfl far (by omega) doubles long
  obtain ⟨next, failed⟩ := iterate_of_overlong clock (ExclusionSet.safe_empty _) two_le overlong
  rw [run_of_opening begun]
  exact loop_of_fault nofun ((turn_eq_iterate allows Nat.one_pos clock).2.trans failed)

end

/-- There is a run, and nothing in the budget forbids it, but it is not found. -/
theorem not_found_detour :
    let solver : Solver (detour halfBound) := { settings := { initialModulus := halfBound } }
    (detour halfBound).IsRun [1, 2] ∧ 2 ≤ solver.settings.initialModulus ∧
      (∀ rounds, solver.budget.Allows rounds) ∧ solver.budget.maxPathLength = none ∧
      ∀ clock fuel, solver.run clock (fuel + 1) = some (.error .unwritable) := by
  intro solver
  refine ⟨isRun_detour, by decide +kernel, fun _ => ⟨rfl, rfl, nofun⟩, rfl, fun clock => ?_⟩
  exact run_detour solver clock rfl (by decide +kernel) rfl rfl ⟨rfl, rfl, nofun⟩ nofun
    (by decide +kernel)

/-- What an answer says about the runs up to a length. -/
inductive Decides (sys : CounterSystem) (length : Nat) : Option Verdict → Prop where
  | reachable (word : Word) (run : sys.IsRun word) (short : word.length ≤ length) :
      Decides sys length (some (.reachable word))
  | unreachable (none : ∀ run, ¬ sys.IsRun run) : Decides sys length (some .unreachable)
  | pathLength (beyond : ∀ run, sys.IsRun run → length < run.length) :
      Decides sys length (some (.unknown .pathLength))

/-- The last round decides about the runs up to the length that the budget allows. -/
theorem Progress.decides (progress : solver.Progress session next)
    (safe : session.exclusions.Safe sys) (done : next.phase = .done)
    (bounded : solver.budget.maxPathLength = some (length : Int)) :
    Decides sys length next.verdict := by
  cases progress with
  | refuted none verdict =>
    rw [verdict]
    exact .unreachable fun run isRun => none run (safe.candidate_of_isRun _ isRun)
  | cut limit known beyond verdict =>
    obtain rfl : (length : Int) = limit := Option.some.inj (bounded.symm.trans known)
    rw [verdict]
    exact .pathLength fun run isRun => mod_cast beyond run (safe.candidate_of_isRun _ isRun)
  | reached word finds run verdict =>
    rw [verdict]
    exact .reachable word run (mod_cast finds.within length bounded)
  | excluded _ _ _ _ _ _ _ searching | raised _ _ _ _ _ _ searching =>
    rw [done] at searching
    cases searching

/-- A query that may not look at longer walks ends with a decision, or with a number that cannot be
written. -/
theorem run_decides (clock : Clock) (two_le : 2 ≤ solver.settings.initialModulus)
    (bounded : solver.budget.maxPathLength = some (length : Int))
    (allows : solver.budget.Allows (sys.roundBound length)) :
    (∃ final, solver.run clock (sys.roundBound length + 1) = some (.ok final) ∧
      final.iteration ≤ sys.roundBound length ∧ Decides sys length final.verdict) ∨
    (¬ solver.Legible clock ∧
      solver.run clock (sys.roundBound length + 1) = some (.error .unwritable)) := by
  refine (run_ends two_le allows (fun session _ word finds => mod_cast finds.within length bounded)
    clock).imp_left ?_
  rintro ⟨final, finished, rounds, ended⟩
  refine ⟨final, finished, rounds, ?_⟩
  rcases ended with answer | ⟨last, safe, progress, done⟩
  · rw [answer]
    exact .unreachable ((sound_of_run finished).truthful.unreachable answer)
  · exact progress.decides safe done bounded

/-- A query whose only ceiling is a length ends within a bounded number of rounds, if all numbers on
the way can be written. It finds a run exactly if there is one up to that length; otherwise it
answers that there is none, or that the ceiling was hit. The only other end is that it fails at a
number with too many digits, which cannot happen if the first modulus and the square of what the
counters can reach are short enough. -/
theorem reachable_iff_of_maxPathLength (solver : Solver sys) (clock : Clock)
    (two_le : 2 ≤ solver.settings.initialModulus)
    (budget : solver.budget = { maxPathLength := some (length : Int) }) :
    (solver.Legible clock →
      ∃ final, solver.run clock (sys.roundBound length + 1) = some (.ok final) ∧
        final.iteration ≤ sys.roundBound length ∧
        ((∃ word, final.verdict = some (.reachable word)) ↔
          ∃ run, sys.IsRun run ∧ run.length ≤ length) ∧
        ((∃ word, final.verdict = some (.reachable word)) ∨ final.verdict = some .unreachable ∨
          final.verdict = some (.unknown .pathLength))) ∧
    (¬ solver.Legible clock →
      solver.run clock (sys.roundBound length + 1) = some (.error .unwritable)) ∧
    (sys.isWritable = true →
      (solver.settings.precheck.enabled = true → ∃ result, solver.integerCheck = .ok result) →
      Decimal.isWritable solver.settings.initialModulus = true →
      Decimal.isWritable (sys.numberBound length) = true → solver.Legible clock) := by
  have bounded : solver.budget.maxPathLength = some (length : Int) := by rw [budget]
  have allows : solver.budget.Allows (sys.roundBound length) := by
    rw [budget]
    exact ⟨rfl, rfl, nofun⟩
  refine and_assoc.1 ⟨?_, fun writable checked first bound =>
    legible_of_short two_le (exists_opening writable checked)
      (fun session _ word finds => mod_cast finds.within length bounded) first bound clock⟩
  rcases run_decides clock two_le bounded allows with
    ⟨final, finished, rounds, decided⟩ | ⟨stuck, failed⟩
  · refine ⟨fun _ => ⟨final, finished, rounds, ?_⟩,
      fun stuck => absurd (legible_of_run two_le finished) stuck⟩
    generalize final.verdict = verdict at decided
    cases decided with
    | reachable word run short =>
      exact ⟨⟨fun _ => ⟨word, run, short⟩, fun _ => ⟨word, rfl⟩⟩, .inl ⟨word, rfl⟩⟩
    | unreachable none =>
      exact ⟨⟨by simp, fun ⟨run, isRun, _⟩ => absurd isRun (none run)⟩, .inr (.inl rfl)⟩
    | pathLength beyond =>
      exact ⟨⟨by simp, fun ⟨run, isRun, short⟩ => absurd short (not_le.2 (beyond run isRun))⟩,
        .inr (.inr rfl)⟩
  · exact ⟨fun legible => absurd legible stuck, fun _ => failed⟩

/-- One step up and one step down, looking at two steps at most. -/
theorem reachable_iff_twoSteps :
    let solver : Solver (twoSteps 1 (-1)) := { budget := { maxPathLength := some 2 } }
    solver.Legible (.whole fun _ => 0) ∧
      ∃ final, solver.run (.whole fun _ => 0) 4 = some (.ok final) ∧ final.iteration ≤ 3 ∧
        ∃ word, final.verdict = some (.reachable word) := by
  intro solver
  have run : (twoSteps 1 (-1)).IsRun [0, 1] := isRun_twoSteps_iff.2 (by decide)
  have budget : solver.budget = { maxPathLength := some ((2 : Nat) : Int) } := rfl
  obtain ⟨decided, -, legible⟩ :=
    reachable_iff_of_maxPathLength solver (.whole fun _ => 0) (by decide) budget
  have legible : solver.Legible (.whole fun _ => 0) :=
    legible isWritable_twoSteps nofun (by decide +kernel) (by decide +kernel)
  obtain ⟨final, finished, rounds, found, -⟩ := decided legible
  rw [roundBound_twoSteps] at finished rounds
  exact ⟨legible, final, finished, rounds, found.2 ⟨[0, 1], run, le_rfl⟩⟩

/-- There is a run of two steps, but a query that looks at two steps at most does not end with an
answer. -/
theorem not_decided_detour :
    let solver : Solver (detour halfBound) :=
      { settings := { initialModulus := halfBound }, budget := { maxPathLength := some 2 } }
    2 ≤ solver.settings.initialModulus ∧ (∃ run, (detour halfBound).IsRun run ∧ run.length ≤ 2) ∧
      ∀ clock fuel, solver.run clock (fuel + 1) = some (.error .unwritable) := by
  intro solver
  refine ⟨by decide +kernel, ⟨[1, 2], isRun_detour, le_rfl⟩, fun clock => ?_⟩
  refine run_detour solver clock rfl (by decide +kernel) rfl rfl ⟨rfl, rfl, nofun⟩ ?_
    (by decide +kernel)
  intro limit known
  obtain rfl := Option.some.inj known
  decide

end Solver
end ZeroRun
