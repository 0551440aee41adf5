import ZeroRun.Counters
import ZeroRun.Settings.Budget

/-!
The answer to the question whether a counter system has a run from zero to zero.
-/
namespace ZeroRun

/-- The answer to a query: a run, the certainty that there is none, or the ceiling that was hit
before either was found. -/
inductive Verdict where
  | reachable (witness : Word)
  | unreachable
  | unknown (limit : Limit)
deriving DecidableEq, Repr

namespace Verdict

/-- The answer as one word. -/
def status : Verdict → String
  | .reachable _ => "true"
  | .unreachable => "false"
  | .unknown _ => "unknown"

/-- The ceiling that was hit. -/
def limit? : Verdict → Option Limit
  | .unknown limit => some limit
  | _ => none

/-- Why there is no answer; a ceiling is the only reason. -/
def reason? (verdict : Verdict) : Option String :=
  verdict.limit?.map fun _ => "budget_exhausted"

/-- The run that was found. -/
def witness? : Verdict → Option Word
  | .reachable witness => some witness
  | _ => none

/-- The answer in a line of text. -/
def toText : Verdict → String
  | .unknown limit => "unknown (" ++ limit.name ++ " budget exhausted)"
  | verdict => verdict.status

end Verdict
end ZeroRun
