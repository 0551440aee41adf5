import ZeroRun.Refine.Clock
import ZeroRun.Refine.Session
import ZeroRun.Settings.Basic

/-!
The refinement loop. A search at the modulus at hand either finds no candidate, and then there is
no run, or a candidate, which is replayed exactly. A genuine run ends the query. A certified
failure is excluded and the search goes on; anything else raises the modulus.

What a query says on its way is put into words whether or not anyone listens. A number with too
many digits cannot be, and then the query fails.

No bound on the number of rounds is known for systems without a run, so the loop takes fuel.
-/
namespace ZeroRun

/-- Decides one counter system with given settings. -/
structure Solver (sys : CounterSystem) where
  settings : Settings := {}
  budget : Budget := settings.budget
  language : WalkLanguage sys := .of sys
  /-- Answers the questions of the integer check. -/
  integerOracle : Linear.Oracle := IntegerReach.oracleFor sys
  /-- Answers whether loops can be balanced. -/
  loopOracle : Linear.Oracle := Linear.solver
  /-- Expands the states of a layer if there are several workers. -/
  pool : Pool := .inTurn

/-- What a candidate was judged to be: something that was found, or a kind that nobody knows. -/
inductive Judgement where
  | found (finding : Finding)
  | unknown (kind : String)

/-- Can the dimension be written, and the states in the order of their written forms? -/
def CounterSystem.isWritable (sys : CounterSystem) : Bool :=
  sys.declaredDimension.plain?.isSome && sys.states.all (·.quoted?.isSome)

namespace Solver
variable {sys : CounterSystem} (solver : Solver sys)

/-- Has the number of iterations reached its ceiling? -/
def iterationsSpent (session : Session) : Bool :=
  match solver.budget.maxIterations with
  | none => false
  | some limit => decide (limit ≤ session.iteration)

/-- Has the modulus passed its ceiling? -/
def modulusSpent (session : Session) : Bool :=
  match solver.budget.maxModulus with
  | none => false
  | some limit => decide (limit < session.modulus)

/-- Has the time since `started` passed its ceiling? The clock is read only if there is one. -/
def timeSpent (clock : Clock) (started : Number) (session : Session) :
    Except Error (Bool × Session) :=
  match solver.budget.maxTime with
  | none => .ok (false, session)
  | some limit =>
    match (clock.read session.ticks).sub? started with
    | none => .error (.conversion .decimalTooLarge)
    | some elapsed => .ok (elapsed.exceeds limit, session.tick)

/-- The ceiling that has been hit, if any: first iterations, then the modulus, then time. -/
def exceededLimit (clock : Clock) (started : Number) (session : Session) :
    Except Error (Option Limit × Session) :=
  if solver.iterationsSpent session then .ok (some .iterations, session)
  else if solver.modulusSpent session then .ok (some .modulus, session)
  else
    match solver.timeSpent clock started session with
    | .error e => .error e
    | .ok (true, session) => .ok (some .time, session)
    | .ok (false, session) => .ok (none, session)

/-- Raises the modulus after a candidate with the given peak, and says so. -/
def raise (peak : Int) (session : Session) : Session × Option Error :=
  let raised := { session with modulus := solver.settings.policy.next session.modulus peak }
  if Decimal.isWritable raised.modulus then ({ raised with phase := .searching }, none)
  else (raised, some .unwritable)

/-- What follows from a judgement on a candidate. A genuine run is the answer. A certificate is
recorded, and has to be new. A candidate on which nothing was found raises the modulus. A fault
leaves the session as far as it got. -/
def dispatch (walk : Walk sys) (judgement : Judgement) (session : Session) :
    Session × Option Error :=
  match judgement with
  | .unknown kind => (session, some (.unhandled kind))
  | .found .genuine => (session.finish (.reachable walk.word), none)
  | .found (.negativeExcursion stem) | .found (.guardViolation stem) =>
    match session.exclusions.recordStem stem with
    | .error e => (session, some e)
    | .ok (false, _) => (session, some (.stemCovered walk.word stem))
    | .ok (true, exclusions) => ({ session with exclusions, phase := .searching }, none)
  | .found (.wrapOnlyLoop pattern) =>
    match session.exclusions.recordLoop pattern with
    | (false, _) =>
      (session, some (.loopRecorded walk.word pattern.stem pattern.cycle pattern.tail))
    | (true, exclusions) => ({ session with exclusions, phase := .searching }, none)
  | .found .inconclusive => solver.raise walk.peak session

/-- The search of a session. -/
def searchOf (session : Session) (space : ResidueSpace) : CandidateSearch sys where
  language := solver.language
  space := space
  exclusions := session.exclusions
  maxLength := solver.budget.maxPathLength
  workers := solver.settings.workers
  pool := solver.pool

/-- The round of a session in which a search had an outcome, before its consequence; `begun` counts
the readings of the clock before the round. -/
def roundOf (clock : Clock) (begun : Nat) (outcome : SearchOutcome) (session : Session) :
    Round where
  iteration := session.iteration
  modulus := session.modulus
  exclusions := session.exclusions
  outcome := outcome
  elapsed := clock.between begun session.ticks
  nextModulus := session.modulus
  nextExclusions := session.exclusions

/-- The round of a session in which a candidate had a finding, and after which the session went
on. -/
def validatedRound (clock : Clock) (begun : Nat) (outcome : SearchOutcome) (finding : Finding)
    (session next : Session) : Round :=
  { roundOf clock begun outcome session with
    finding := some finding
    nextPhase := next.phase
    nextModulus := next.modulus
    nextExclusions := next.exclusions }

/-- Ends a query whose last round found no candidate. -/
def conclude (round : Round) (verdict : Verdict) (session : Session) : Session :=
  { session.tick with rounds := session.rounds ++ [round] }.finish verdict

/-- Replays a candidate and does what follows from its finding. The questions that lead to the
finding are put in writing. -/
def validate (clock : Clock) (begun : Nat) (outcome : SearchOutcome) (word : Word)
    (session : Session) : Session × Option Error :=
  match Walk.ofWord sys word with
  | .error e => (session, some e)
  | .ok walk =>
    let session := { session with phase := .validating }
    let failed := { session with underway := some (roundOf clock begun outcome session) }
    match walk.classify session.modulus solver.loopOracle with
    | .error e => (failed, some e)
    | .ok finding =>
      if (walk.asked finding).all sys.canAsk then
        let result := solver.dispatch walk (.found finding) session.tick
        let round := validatedRound clock begun outcome finding session result.1
        ({ result.1 with rounds := session.rounds ++ [round] }, result.2)
      else (failed, some .unwritable)

/-- One round: a search, and the replay of the candidate it found. A fault leaves the session as
far as it got. -/
def iterate (clock : Clock) (session : Session) : Session × Option Error :=
  let begun := session.ticks
  let session := session.enterIteration.tick
  if !Decimal.isWritable session.modulus then (session, some .unwritable)
  else
    match ResidueSpace.make session.modulus sys.dimension with
    | .error e => (session, some e)
    | .ok space =>
      match (solver.searchOf session space).run with
      | .error e => (session, some e)
      | .ok outcome =>
        let session := { session with visited := session.visited + outcome.visited }
        match outcome.status with
        | .exhausted =>
          (conclude (roundOf clock begun outcome session) .unreachable session, none)
        | .truncated =>
          (conclude (roundOf clock begun outcome session) (.unknown .pathLength) session, none)
        | .found word => solver.validate clock begun outcome word session

/-- The integer check. Its questions are put in writing, and so is what it comes to. -/
def integerCheck : Except Error IntegerReach.Result :=
  let maxSteps := solver.settings.precheck.maxSteps
  let result := IntegerReach.checkWith solver.integerOracle sys maxSteps
  if IntegerReach.canAsk sys && result.isWritable maxSteps then .ok result else .error .unwritable

/-- The session before the first round. If the integer check is enabled and finds no solution,
there is no run and nothing more to do. -/
def opening : Except Error Session :=
  let session : Session :=
    { modulus := solver.settings.initialModulus, phase := .searching, ticks := 1 }
  if !sys.isWritable then .error .unwritable
  else if solver.settings.precheck.enabled then
    match solver.integerCheck with
    | .error e => .error e
    | .ok result =>
      let session := { session with integerCheck := some result }
      .ok (if result.refutes then session.finish .unreachable else session)
  else .ok session

/-- One turn of the loop: a ceiling that has been hit ends the query, otherwise there is another
round. -/
def turn (clock : Clock) (session : Session) : Session × Option Error :=
  match solver.exceededLimit clock (clock.read 0) session with
  | .error e => (session, some e)
  | .ok (some limit, session) => (session.finish (.unknown limit), none)
  | .ok (none, session) => solver.iterate clock session

/-- Turn after turn until the query is done or fails: the session as far as it got, and the fault.
There is none if the fuel runs out before. -/
def course (clock : Clock) : (fuel : Nat) → Session → Option (Session × Option Error)
  | 0, _ => none
  | fuel + 1, session =>
    if session.phase = .done then some (session, none)
    else
      match solver.turn clock session with
      | (session, some e) => some (session, some e)
      | (session, none) => course clock fuel session

/-- Turn after turn until the query is done, or `none` if the fuel runs out before. -/
def loop (clock : Clock) (fuel : Nat) (session : Session) : Option (Except Error Session) :=
  (solver.course clock fuel session).map fun (session, fault) =>
    match fault with
    | some e => .error e
    | none => .ok session

/-- Runs a query, on at most `fuel` turns. -/
def run (clock : Clock) (fuel : Nat) : Option (Except Error Session) :=
  match solver.opening with
  | .error e => some (.error e)
  | .ok session => solver.loop clock fuel session

end Solver
end ZeroRun
