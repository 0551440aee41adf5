import ZeroRun.Classification
import ZeroRun.IntegerReach.Check
import ZeroRun.Refine.Verdict
import ZeroRun.Search

/-!
The state of one query. A session knows the modulus at hand, what has been excluded so far, and
the rounds it went through; each round is one search and, if it found a candidate, what the
candidate turned out to be.
-/
namespace ZeroRun

/-- What a query is about to do. -/
inductive Phase where
  | init
  | searching
  | validating
  | done
deriving DecidableEq, Repr

/-- The name of a phase. -/
def Phase.name : Phase → String
  | .init => "INIT"
  | .searching => "SEARCHING"
  | .validating => "VALIDATING"
  | .done => "DONE"

/-- One search and its consequence: where the query stood before and after. -/
structure Round where
  iteration : Nat
  modulus : Int
  exclusions : ExclusionSet
  outcome : SearchOutcome
  finding : Option Finding := none
  elapsed : Number
  nextPhase : Phase := .done
  nextModulus : Int
  nextExclusions : ExclusionSet

namespace Round

/-- The candidate that was found. -/
def candidate? (round : Round) : Option Word :=
  round.outcome.status.word?

/-- The length of the candidate. -/
def length? (round : Round) : Option Nat :=
  round.candidate?.map List.length

/-- The name of what happened: the kind of the candidate, or how the search ended without one. -/
def label (round : Round) : String :=
  match round.finding with
  | some finding => finding.classification.name
  | none => round.outcome.status.name

end Round

/-- The state of a query. The clock is read at certain moments; `ticks` counts the readings. -/
structure Session where
  modulus : Int
  iteration : Nat := 0
  phase : Phase := .init
  verdict : Option Verdict := none
  exclusions : ExclusionSet := {}
  peakModulus : Int := 0
  visited : Nat := 0
  integerCheck : Option IntegerReach.Result := none
  rounds : List Round := []
  /-- The round that failed before its candidate had a finding. -/
  underway : Option Round := none
  ticks : Nat := 0

namespace Session

/-- Ends a query with an answer. -/
def finish (session : Session) (verdict : Verdict) : Session :=
  { session with verdict := some verdict, phase := .done }

/-- Moves on to the next iteration. -/
def enterIteration (session : Session) : Session :=
  { session with
    iteration := session.iteration + 1
    peakModulus := max session.peakModulus session.modulus }

/-- Counts one more reading of the clock. -/
def tick (session : Session) : Session :=
  { session with ticks := session.ticks + 1 }

end Session
end ZeroRun
