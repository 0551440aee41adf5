import Mathlib
import ZeroRun.Refine.Run

/-! One round of the refinement loop, taken as a relation between the session before it and the
session after it. Each statement says everything that a step without a fault has done, and that
it is a step whenever it has done this. -/
namespace ZeroRun.Solver
variable {sys : CounterSystem} {solver : Solver sys} {session next : Session} {clock : Clock}
  {begun fuel : Nat} {outcome : SearchOutcome} {word : Word}

/-- What follows from a finding on a candidate. -/
inductive Follows (solver : Solver sys) (walk : Walk sys) (session : Session) :
    Finding → Session → Prop where
  | genuine : solver.Follows walk session .genuine (session.finish (.reachable walk.word))
  | negativeExcursion {stem : Word} {exclusions : ExclusionSet}
      (recorded : session.exclusions.recordStem stem = .ok (true, exclusions)) :
      solver.Follows walk session (.negativeExcursion stem)
        { session with exclusions, phase := .searching }
  | guardViolation {stem : Word} {exclusions : ExclusionSet}
      (recorded : session.exclusions.recordStem stem = .ok (true, exclusions)) :
      solver.Follows walk session (.guardViolation stem)
        { session with exclusions, phase := .searching }
  | wrapOnlyLoop {pattern : LoopPattern} {exclusions : ExclusionSet}
      (recorded : session.exclusions.recordLoop pattern = (true, exclusions)) :
      solver.Follows walk session (.wrapOnlyLoop pattern)
        { session with exclusions, phase := .searching }
  | inconclusive
      (short : Decimal.isWritable (solver.settings.policy.next session.modulus walk.peak) = true) :
      solver.Follows walk session .inconclusive
        { session with
          modulus := solver.settings.policy.next session.modulus walk.peak
          phase := .searching }

theorem dispatch_eq_iff {walk : Walk sys} {finding : Finding} :
    solver.dispatch walk (.found finding) session = (next, none) ↔
      solver.Follows walk session finding next := by
  constructor
  · intro dispatched
    cases finding with
    | genuine =>
      cases dispatched
      exact .genuine
    | inconclusive =>
      rw [dispatch, raise] at dispatched
      split at dispatched <;> cases dispatched
      exact .inconclusive ‹_›
    | negativeExcursion stem =>
      rw [dispatch] at dispatched
      split at dispatched <;> cases dispatched
      exact .negativeExcursion ‹_›
    | guardViolation stem =>
      rw [dispatch] at dispatched
      split at dispatched <;> cases dispatched
      exact .guardViolation ‹_›
    | wrapOnlyLoop pattern =>
      rw [dispatch] at dispatched
      split at dispatched <;> cases dispatched
      exact .wrapOnlyLoop ‹_›
  · intro follows
    cases follows with
    | genuine => rfl
    | inconclusive short => simp only [dispatch, raise, short, if_true]
    | negativeExcursion recorded | guardViolation recorded | wrapOnlyLoop recorded =>
      simp only [dispatch, recorded]

/-- The session in which a candidate is replayed; the clock has been read for the record. -/
def validating (session : Session) : Session :=
  ({ session with phase := .validating } : Session).tick

/-- A candidate is replayed: it can be followed, it has a finding after questions that can be
written, and the session goes on with what follows from it and with one round more. -/
theorem validate_eq_iff :
    solver.validate clock begun outcome word session = (next, none) ↔
      ∃ walk finding result, Walk.ofWord sys word = .ok walk ∧
        walk.classify session.modulus solver.loopOracle = .ok finding ∧
        (walk.asked finding).all sys.canAsk = true ∧
        solver.Follows walk (validating session) finding result ∧
        next = { result with
          rounds := session.rounds ++
            [validatedRound clock begun outcome finding session result] } := by
  unfold validate
  constructor
  · intro validated
    cases followed : Walk.ofWord sys word with
    | error e => simp [followed] at validated
    | ok walk =>
      rw [followed] at validated
      cases classified : walk.classify session.modulus solver.loopOracle with
      | error e => simp [classified] at validated
      | ok finding =>
        simp only [classified] at validated
        split at validated
        · rename_i asked
          obtain ⟨rfl, faultless⟩ := Prod.mk.inj validated
          exact ⟨walk, finding, _, rfl, classified, asked,
            dispatch_eq_iff.1 (Prod.ext rfl faultless), rfl⟩
        · simp at validated
  · rintro ⟨walk, finding, result, followed, classified, asked, follows, rfl⟩
    have dispatched : solver.dispatch walk (.found finding)
        ({ session with phase := .validating } : Session).tick = (result, none) :=
      dispatch_eq_iff.2 follows
    simp only [followed, classified, asked, dispatched, if_true]
    rfl

/-- The session in a round whose search has had an outcome. -/
def searched (session : Session) (outcome : SearchOutcome) : Session :=
  { session.enterIteration.tick with visited := session.visited + outcome.visited }

/-- What follows from the outcome of a search: a search without a candidate ends the query, and a
candidate is replayed. -/
inductive Continues (solver : Solver sys) (clock : Clock) (session : Session)
    (outcome : SearchOutcome) (next : Session) : Prop where
  | exhausted (status : outcome.status = .exhausted)
      (concludes : next = conclude
        (roundOf clock session.ticks outcome (searched session outcome)) .unreachable
        (searched session outcome))
  | truncated (status : outcome.status = .truncated)
      (concludes : next = conclude
        (roundOf clock session.ticks outcome (searched session outcome))
        (.unknown .pathLength) (searched session outcome))
  | found (word : Word) (status : outcome.status = .found word)
      (validates : solver.validate clock session.ticks outcome word
        (searched session outcome) = (next, none))

/-- A round at a modulus that can be written is a search with an outcome and what follows from
it. -/
theorem iterate_eq_iff :
    solver.iterate clock session = (next, none) ↔
      Decimal.isWritable session.modulus = true ∧
      ∃ space outcome, ResidueSpace.make session.modulus sys.dimension = .ok space ∧
        (solver.searchOf session space).run = .ok outcome ∧
        solver.Continues clock session outcome next := by
  have modulus : session.enterIteration.tick.modulus = session.modulus := rfl
  have search : ∀ space, solver.searchOf session.enterIteration.tick space =
      solver.searchOf session space := fun _ => rfl
  simp only [iterate, modulus, search]
  cases short : Decimal.isWritable session.modulus with
  | false => simp
  | true =>
    simp only [Bool.not_true, Bool.false_eq_true, if_false, true_and]
    constructor
    · intro iterated
      cases made : ResidueSpace.make session.modulus sys.dimension with
      | error e => simp [made] at iterated
      | ok space =>
        simp only [made] at iterated
        cases ran : (solver.searchOf session space).run with
        | error e => simp [ran] at iterated
        | ok outcome =>
          simp only [ran] at iterated
          refine ⟨space, outcome, rfl, ran, ?_⟩
          split at iterated
          · exact .exhausted ‹_› (Prod.mk.inj iterated).1.symm
          · exact .truncated ‹_› (Prod.mk.inj iterated).1.symm
          · exact .found _ ‹_› iterated
    · rintro ⟨space, outcome, made, ran, continues⟩
      simp only [made, ran]
      cases continues with
      | exhausted status concludes | truncated status concludes =>
        simp only [status, concludes]
        rfl
      | found word status validates =>
        simp only [status]
        exact validates

/-- A round whose search has found a candidate is the replay of the candidate. -/
theorem iterate_of_found {space : ResidueSpace}
    (short : Decimal.isWritable session.modulus = true)
    (made : ResidueSpace.make session.modulus sys.dimension = .ok space)
    (ran : (solver.searchOf session space).run = .ok outcome)
    (status : outcome.status = .found word) :
    solver.iterate clock session =
      solver.validate clock session.ticks outcome word (searched session outcome) := by
  have modulus : session.enterIteration.tick.modulus = session.modulus := rfl
  have search : solver.searchOf session.enterIteration.tick space =
      solver.searchOf session space := rfl
  simp only [iterate, modulus, short, made, search, ran, status]
  rfl

/-! ## Ceilings -/

theorem iterationsSpent_iff : solver.iterationsSpent session = true ↔
    ∃ limit, solver.budget.maxIterations = some limit ∧ limit ≤ session.iteration := by
  rw [iterationsSpent]
  split <;> simp_all

theorem modulusSpent_iff : solver.modulusSpent session = true ↔
    ∃ limit, solver.budget.maxModulus = some limit ∧ limit < session.modulus := by
  rw [modulusSpent]
  split <;> simp_all

/-- What looking at the ceilings can come to. Nothing of the session changes but the number of clock
readings. -/
inductive Looks (solver : Solver sys) (session : Session) : Option Limit → Session → Prop where
  | iterations (spent : solver.iterationsSpent session = true) :
      solver.Looks session (some .iterations) session
  | modulus (spent : solver.modulusSpent session = true) :
      solver.Looks session (some .modulus) session
  | time (timed : solver.budget.maxTime ≠ none) : solver.Looks session (some .time) session.tick
  | unread (patient : ¬ solver.iterationsSpent session = true)
      (small : ¬ solver.modulusSpent session = true) (timeless : solver.budget.maxTime = none) :
      solver.Looks session none session
  | read (patient : ¬ solver.iterationsSpent session = true)
      (small : ¬ solver.modulusSpent session = true) (timed : solver.budget.maxTime ≠ none) :
      solver.Looks session none session.tick

/-- During a query the ceilings can always be looked at: all times come from one clock. -/
theorem exceededLimit_looks (solver : Solver sys) (clock : Clock) (start : Nat)
    (session : Session) :
    ∃ limit after, solver.exceededLimit clock (clock.read start) session = .ok (limit, after) ∧
      solver.Looks session limit after := by
  unfold exceededLimit
  by_cases iterations : solver.iterationsSpent session = true
  · exact ⟨_, _, if_pos iterations, .iterations iterations⟩
  rw [if_neg iterations]
  by_cases modulus : solver.modulusSpent session = true
  · exact ⟨_, _, if_pos modulus, .modulus modulus⟩
  rw [if_neg modulus]
  cases limited : solver.budget.maxTime with
  | none =>
    simp only [timeSpent, limited]
    exact ⟨_, _, rfl, .unread iterations modulus limited⟩
  | some limit =>
    simp only [timeSpent, limited, Clock.sub_read]
    cases (clock.between start session.ticks).exceeds limit with
    | true => exact ⟨_, _, rfl, .time (by simp [limited])⟩
    | false => exact ⟨_, _, rfl, .read iterations modulus (by simp [limited])⟩

/-- Looking at the ceilings changes nothing but the number of clock readings. -/
theorem Looks.kept {limit : Option Limit} {after : Session}
    (looks : solver.Looks session limit after) : after = session ∨ after = session.tick := by
  cases looks with
  | iterations | modulus | unread => exact .inl rfl
  | time | read => exact .inr rfl

/-- What does not depend on the clock readings stays the same. -/
theorem Looks.unchanged {α : Type} {limit : Option Limit} {after : Session}
    (looks : solver.Looks session limit after) (part : Session → α)
    (timeless : ∀ session, part session.tick = part session) : part after = part session := by
  rcases looks.kept with rfl | rfl
  · rfl
  · exact timeless session

/-! ## Turns -/

/-- No ceiling has been hit, so the next turn is a round. -/
def Begins (solver : Solver sys) (clock : Clock) (session : Session) : Prop :=
  ∃ after, solver.exceededLimit clock (clock.read 0) session = .ok (none, after)

/-- A turn gives up at a ceiling, or it is a round. -/
theorem turn_cases (solver : Solver sys) (clock : Clock) (session : Session) :
    (¬ solver.Begins clock session ∧ ∃ limit after, solver.Looks session (some limit) after ∧
      solver.turn clock session = (after.finish (.unknown limit), none)) ∨
    (solver.Begins clock session ∧ ∃ after, solver.Looks session none after ∧
      solver.turn clock session = solver.iterate clock after) := by
  obtain ⟨limit, after, looked, looks⟩ := exceededLimit_looks solver clock 0 session
  unfold Begins turn
  rw [looked]
  cases limit with
  | none => exact .inr ⟨⟨after, rfl⟩, after, looks, rfl⟩
  | some limit => exact .inl ⟨by simp, limit, after, looks, rfl⟩

/-! ## The loop -/

/-- A session that is done is the answer. -/
theorem loop_of_done (solver : Solver sys) (clock : Clock) (fuel : Nat)
    (done : session.phase = .done) : solver.loop clock (fuel + 1) session = some (.ok session) := by
  rw [loop, course, if_pos done]
  rfl

/-- A fault ends the loop. -/
theorem loop_of_fault {fault : Error} (running : session.phase ≠ .done)
    (turned : solver.turn clock session = (next, some fault)) :
    solver.loop clock (fuel + 1) session = some (.error fault) := by
  rw [loop, course, if_neg running, turned]
  rfl

/-- After a turn without a fault the loop goes on. -/
theorem loop_of_turn (running : session.phase ≠ .done)
    (turned : solver.turn clock session = (next, none)) :
    solver.loop clock (fuel + 1) session = solver.loop clock fuel next := by
  rw [loop, course, if_neg running, turned]
  rfl

/-- A loop that comes to an end from a session that is not done has a turn with a fault, or it comes
to the same end after the turn. -/
theorem loop_cases {result : Except Error Session} (running : session.phase ≠ .done)
    (finished : solver.loop clock (fuel + 1) session = some result) :
    (∃ next fault, solver.turn clock session = (next, some fault) ∧ result = .error fault) ∨
      ∃ next, solver.turn clock session = (next, none) ∧
        solver.loop clock fuel next = some result := by
  cases turned : solver.turn clock session with
  | mk next fault =>
    cases fault with
    | some fault =>
      rw [loop_of_fault running turned] at finished
      exact .inl ⟨next, fault, rfl, (Option.some.inj finished).symm⟩
    | none =>
      rw [loop_of_turn running turned] at finished
      exact .inr ⟨next, rfl, finished⟩

/-- The answer is a session that is done, and what every turn keeps holds of it. -/
theorem loop_invariant {motive : Session → Prop} {final : Session}
    (turn : ∀ {session next : Session}, motive session → session.phase ≠ .done →
      solver.turn clock session = (next, none) → motive next)
    (start : motive session) (finished : solver.loop clock fuel session = some (.ok final)) :
    motive final ∧ final.phase = .done := by
  induction fuel generalizing session with
  | zero => cases finished
  | succ fuel ih =>
    by_cases done : session.phase = .done
    · rw [loop_of_done _ _ _ done] at finished
      cases finished
      exact ⟨start, done⟩
    · rcases loop_cases done finished with ⟨_, fault, -, failed⟩ | ⟨next, turned, finished⟩
      · cases failed
      · exact ih (turn start done turned) finished

/-- However much fuel there is, the loop comes to the same end. -/
theorem loop_unique {fuel' : Nat} {first second : Except Error Session}
    (once : solver.loop clock fuel session = some first)
    (again : solver.loop clock fuel' session = some second) : first = second := by
  induction fuel generalizing session fuel' with
  | zero => cases once
  | succ fuel ih =>
    cases fuel' with
    | zero => cases again
    | succ fuel' =>
      by_cases done : session.phase = .done
      · rw [loop_of_done _ _ _ done] at once again
        exact Option.some.inj (once.symm.trans again)
      · rcases loop_cases done once with ⟨_, fault, turned, rfl⟩ | ⟨next, turned, once⟩
        · rw [loop_of_fault done turned] at again
          exact Option.some.inj again
        · rw [loop_of_turn done turned] at again
          exact ih once again

/-! ## Whole queries -/

/-- The integer check is enabled and finds no solution. -/
def Refuted (solver : Solver sys) : Prop :=
  solver.settings.precheck.enabled = true ∧
    (IntegerReach.checkWith solver.integerOracle sys solver.settings.precheck.maxSteps).refutes =
      true

/-- What holds of the session before the first round. -/
structure Opens (solver : Solver sys) (session : Session) : Prop where
  modulus : session.modulus = solver.settings.initialModulus
  iteration : session.iteration = 0
  exclusions : session.exclusions = {}
  peak : session.peakModulus = 0
  rounds : session.rounds = []
  answer : solver.Refuted ∧ session.phase = .done ∧ session.verdict = some .unreachable ∨
    ¬ solver.Refuted ∧ session.phase = .searching ∧ session.verdict = none

theorem integerCheck_cases (solver : Solver sys) :
    solver.integerCheck = .ok (IntegerReach.checkWith solver.integerOracle sys
      solver.settings.precheck.maxSteps) ∨ solver.integerCheck = .error .unwritable := by
  rw [integerCheck]
  split
  · exact .inl rfl
  · exact .inr rfl

theorem opens_of_opening (begun : solver.opening = .ok session) : solver.Opens session := by
  unfold opening at begun
  split at begun
  · cases begun
  · by_cases enabled : solver.settings.precheck.enabled = true
    · rw [if_pos enabled] at begun
      rcases integerCheck_cases solver with checked | checked <;> rw [checked] at begun
      · cases begun
        by_cases refutes : (IntegerReach.checkWith solver.integerOracle sys
            solver.settings.precheck.maxSteps).refutes = true
        · rw [if_pos refutes]
          exact ⟨rfl, rfl, rfl, rfl, rfl, .inl ⟨⟨enabled, refutes⟩, rfl, rfl⟩⟩
        · rw [if_neg refutes]
          exact ⟨rfl, rfl, rfl, rfl, rfl, .inr ⟨fun refuted => refutes refuted.2, rfl, rfl⟩⟩
      · cases begun
    · rw [if_neg enabled] at begun
      cases begun
      exact ⟨rfl, rfl, rfl, rfl, rfl, .inr ⟨fun refuted => enabled refuted.1, rfl, rfl⟩⟩

/-- A query without the integer check begins if the system can be written. -/
theorem opening_eq (writable : sys.isWritable = true)
    (unchecked : solver.settings.precheck.enabled = false) :
    solver.opening =
      .ok { modulus := solver.settings.initialModulus, phase := .searching, ticks := 1 } := by
  simp [opening, writable, unchecked]

/-- A query that cannot begin has a number to write that has too many digits. -/
theorem eq_unwritable_of_opening {fault : Error} (failed : solver.opening = .error fault) :
    fault = .unwritable := by
  unfold opening at failed
  split at failed
  · cases failed
    rfl
  · split at failed
    · rcases integerCheck_cases solver with checked | checked <;> rw [checked] at failed <;>
        cases failed
      rfl
    · cases failed

/-- A query begins if the system can be written, and so can the integer check if it is enabled. -/
theorem exists_opening (writable : sys.isWritable = true)
    (checked : solver.settings.precheck.enabled = true →
      ∃ result, solver.integerCheck = .ok result) :
    ∃ session, solver.opening = .ok session := by
  by_cases enabled : solver.settings.precheck.enabled = true
  · obtain ⟨result, ok⟩ := checked enabled
    simp [opening, writable, enabled, ok]
  · exact ⟨_, opening_eq writable (Bool.not_eq_true _ ▸ enabled)⟩

theorem run_of_opening (begun : solver.opening = .ok session) (clock : Clock) (fuel : Nat) :
    solver.run clock fuel = solver.loop clock fuel session := by
  rw [run, begun]

theorem run_of_not_opening (stuck : ¬ ∃ session, solver.opening = .ok session) (clock : Clock)
    (fuel : Nat) : solver.run clock fuel = some (.error .unwritable) := by
  cases begun : solver.opening with
  | ok session => exact absurd ⟨session, begun⟩ stuck
  | error fault => rw [run, begun, eq_unwritable_of_opening begun]

/-- A query that comes to an answer has begun. -/
theorem loop_of_run {final : Session} (finished : solver.run clock fuel = some (.ok final)) :
    ∃ session, solver.opening = .ok session ∧
      solver.loop clock fuel session = some (.ok final) := by
  cases begun : solver.opening with
  | ok session => exact ⟨session, rfl, by rwa [run_of_opening begun] at finished⟩
  | error fault =>
    rw [run, begun] at finished
    cases finished

/-- However much fuel there is, a query comes to the same end. -/
theorem run_unique {fuel' : Nat} {first second : Except Error Session}
    (once : solver.run clock fuel = some first) (again : solver.run clock fuel' = some second) :
    first = second := by
  cases begun : solver.opening with
  | ok session =>
    rw [run_of_opening begun] at once again
    exact loop_unique once again
  | error fault =>
    rw [run, begun] at once again
    exact Option.some.inj (once.symm.trans again)

/-- The sessions that a query goes through. -/
inductive Visits (solver : Solver sys) (clock : Clock) : Session → Prop where
  | opening {session : Session} (begun : solver.opening = .ok session) :
      solver.Visits clock session
  | turn {session next : Session} (before : solver.Visits clock session)
      (running : session.phase ≠ .done) (turned : solver.turn clock session = (next, none)) :
      solver.Visits clock next

/-- The answer of a query is the last of its sessions. -/
theorem visits_of_run {final : Session} (finished : solver.run clock fuel = some (.ok final)) :
    solver.Visits clock final ∧ final.phase = .done := by
  obtain ⟨session, begun, finished⟩ := loop_of_run finished
  exact loop_invariant .turn (.opening begun) finished

/-- The loop comes to every session that a query goes through. -/
theorem Visits.exists_run_eq_loop (visits : solver.Visits clock session) :
    ∃ turns, ∀ fuel, solver.run clock (fuel + turns) = solver.loop clock fuel session := by
  induction visits with
  | opening begun => exact ⟨0, fun fuel => run_of_opening begun clock fuel⟩
  | turn before running turned ih =>
    obtain ⟨turns, reaches⟩ := ih
    refine ⟨turns + 1, fun fuel => ?_⟩
    rw [← loop_of_turn running turned, ← reaches, Nat.add_right_comm]
    rfl

end ZeroRun.Solver
