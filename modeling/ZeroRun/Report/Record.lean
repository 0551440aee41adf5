import ZeroRun.Error
import ZeroRun.Text.Escaped

/-!
Figures on a query: a record for each iteration, a summary of the whole, and counts. The summary
has a written form for other programs to read.
-/
namespace ZeroRun

/-- One iteration: a search at a modulus and what came of it. -/
structure IterationRecord where
  iteration : Int
  modulus : Int
  candidateLength : Option Int
  classification : String
  elapsed : Number

/-- A query as a whole. -/
structure RunSummary where
  verdict : String
  totalIterations : Int
  wallTime : Number
  peakModulus : Int

/-- Counts over a whole query. -/
structure Statistics where
  stepCount : Int := 0
  modulus : Int := 0
  stemExclusions : Int := 0
  loopExclusions : Int := 0
  visitedStates : Int := 0
  integerSteps : Int := 0
  time : Number := .float 0.0

namespace RunSummary

/-- The names of the numbers without digits in a written summary. -/
def summaryNumbers : Decimal.Special := ⟨"Infinity", "NaN"⟩

/-- The written fields of a summary. -/
def fields (summary : RunSummary) : Except Error (List String) := do
  let iterations ← Text.int summary.totalIterations
  let time ← Error.written (summary.wallTime.write? summaryNumbers)
  let modulus ← Text.int summary.peakModulus
  return [Text.escaped "verdict" ++ ": " ++ Text.escaped summary.verdict,
    Text.escaped "total_iterations" ++ ": " ++ iterations,
    Text.escaped "wall_time" ++ ": " ++ time,
    Text.escaped "peak_modulus" ++ ": " ++ modulus]

/-- The written form: in one line, or with an indentation and a line for each field. A negative
indentation is none. -/
def toText (summary : RunSummary) (indent : Option Int := none) : Except Error String := do
  let fields ← summary.fields
  match indent with
  | none => return "\x7b" ++ ", ".intercalate fields ++ "\x7d"
  | some width =>
    let margin := "\n" ++ String.ofList (List.replicate width.toNat ' ')
    return "\x7b" ++ margin ++ ("," ++ margin).intercalate fields ++ "\n\x7d"

end RunSummary
end ZeroRun
