import ZeroRun.Refine.Run
import ZeroRun.Report.Record

/-!
What a finished query reports: its answer, a record for each round, a summary and counts.
-/
namespace ZeroRun

/-- A finished query. -/
structure QueryResult where
  verdict : Verdict
  session : Session
  wallTime : Number

/-- The record of a round. -/
def Round.record (round : Round) : IterationRecord where
  iteration := round.iteration
  modulus := round.modulus
  candidateLength := round.length?.map fun (n : Nat) => (n : Int)
  classification := round.label
  elapsed := round.elapsed

/-- The record of the last round. -/
def Session.lastRecord? (session : Session) : Option IterationRecord :=
  session.rounds.getLast?.map Round.record

namespace QueryResult

/-- The result of a session that has come to an answer; the clock is read once more. The time in
between has to have a nearest floating-point number. -/
def ofSession (clock : Clock) (session : Session) (verdict : Verdict) : Except Error QueryResult :=
  let wallTime := clock.between 0 session.ticks
  if wallTime.hasFloat then .ok { verdict, session, wallTime }
  else .error (.conversion .decimalTooLarge)

/-- The records of all rounds, in order. -/
def records (result : QueryResult) : List IterationRecord :=
  result.session.rounds.map Round.record

/-- The summary of a query. -/
def summary (result : QueryResult) : RunSummary where
  verdict := result.verdict.status
  totalIterations := result.session.iteration
  wallTime := result.wallTime
  peakModulus := result.session.peakModulus

/-- The counts of a query. -/
def statistics (result : QueryResult) : Statistics where
  stepCount := result.session.iteration
  modulus := result.session.modulus
  stemExclusions := result.session.exclusions.stemCount
  loopExclusions := result.session.exclusions.loopCount
  visitedStates := result.session.visited
  integerSteps := ((result.session.integerCheck.map IntegerReach.Result.steps).getD 0 : Nat)
  time := result.wallTime

end QueryResult

/-- Decides a counter system: the result of a query, an error, or `none` if the fuel ran out. -/
def Solver.solve {sys : CounterSystem} (solver : Solver sys) (clock : Clock) (fuel : Nat) :
    Option (Except Error QueryResult) :=
  match solver.run clock fuel with
  | none => none
  | some (.error e) => some (.error e)
  | some (.ok session) => session.verdict.map (QueryResult.ofSession clock session)

/-- Only the answer of a query. -/
def Solver.decide {sys : CounterSystem} (solver : Solver sys) (clock : Clock) (fuel : Nat) :
    Option (Except Error Verdict) :=
  (solver.solve clock fuel).map fun result => result.map QueryResult.verdict

end ZeroRun
