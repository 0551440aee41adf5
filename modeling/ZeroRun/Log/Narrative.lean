import ZeroRun.Log.Level
import ZeroRun.Report.Result

/-!
The log of a query, told from its course: how the system was built, the integer check, each round
and the answer. A line with a number that has too many digits cannot be written, and the log ends
before it.
-/
namespace ZeroRun

private def debugLine (message : String) : LogLine := ⟨.debug, message⟩

private def infoLine (message : String) : LogLine := ⟨.info, message⟩

private def warningLine (message : String) : LogLine := ⟨.warning, message⟩

private def written (n : Nat) : String := toString n

/-- A line that is to be written, or what goes wrong with it. -/
abbrev Telling := Except Error LogLine

/-- The lines before the first that cannot be written. -/
def Telling.upToFault : List Telling → List LogLine
  | .ok line :: rest => line :: upToFault rest
  | _ => []

/-- What is said when a system is built. -/
def CounterSystem.narrate (sys : CounterSystem) : List Telling :=
  if sys.deadIndices.isEmpty then []
  else
    [do return debugLine ("Pre-filtered dead transitions: "
      ++ (← Text.ints (sys.deadIndices.map fun (i : Nat) => (i : Int))))]

/-- What is said when a query begins. -/
def CounterSystem.narrateQuery (sys : CounterSystem) : Telling := do
  return infoLine ("Solving zero-reachability: dimension="
    ++ (← Error.written sys.declaredDimension.plain?)
    ++ ", states=" ++ written sys.states.length
    ++ ", transitions=" ++ written sys.transitions.length
    ++ ", dead=" ++ written sys.deadIndices.length)

/-- What is said when the language of the walks is built. -/
def WalkLanguage.narrate (sys : CounterSystem) : Telling := do
  let language ← WalkLanguage.build sys
  let walks ← sys.walkGrammar
  return debugLine ("Reachability grammar: " ++ written walks.nonterminals.length
    ++ " nonterminals, " ++ written language.grammar.nonterminals.length
    ++ " after trimming, empty=" ++ Text.bool (← language.grammar.isEmpty))

namespace IntegerReach

/-- What is said when the integer check ends. -/
def Result.narrateEnd (result : Result) (maxSteps : Option Int) : Telling :=
  match result.status with
  | .reachable image => do
    let counts ← image.mapM fun (index, count) => do
      return (← Text.int index, ← Text.int count)
    return debugLine ("Z-reachability: connected Parikh image " ++ Text.braced counts
      ++ " after " ++ written result.steps ++ " steps")
  | .unreachable =>
    .ok <| debugLine <|
      if result.steps = 0 then "Z-reachability: no live transitions"
      else "Z-reachability refuted after " ++ written result.steps ++ " steps"
  | .unclear reason => .ok (debugLine ("Z-reachability unknown: " ++ reason))
  | .stopped => do
    let limit ← match maxSteps with
      | none => pure "None"
      | some limit => Text.int limit
    return debugLine ("Z-reachability: step limit " ++ limit ++ " reached")

/-- What is said during the integer check of a system. -/
def Result.narrate (result : Result) (sys : CounterSystem) (maxSteps : Option Int) :
    List Telling :=
  if canAsk sys then
    result.forbidden.map (fun count => .ok (debugLine ("Z-reachability: forbidding "
        ++ written count ++ " detached components")))
      ++ [result.narrateEnd maxSteps,
        .ok (infoLine ("Z-reachability pre-check: " ++ result.status.name ++ " after "
          ++ written result.steps ++ " steps"))]
  else [.error .unwritable]

end IntegerReach

/-- What is said during a search. Only in an empty language does a search end before its first
layer. -/
def SearchOutcome.narrate (outcome : SearchOutcome) : List LogLine :=
  [debugLine <| match outcome.status with
    | .found word =>
      "Candidate of length " ++ written word.length ++ " after visiting "
        ++ written outcome.visited ++ " states"
    | .truncated => "Search truncated at path length " ++ written outcome.layers
    | .exhausted => "Search exhausted after visiting " ++ written outcome.visited ++ " states",
    debugLine ("Search: " ++ outcome.status.name ++ ", layers=" ++ written outcome.layers
      ++ ", visited=" ++ written outcome.visited)]

namespace Round

/-- What is said about a candidate. -/
def narrateFinding (round : Round) (finding : Finding) : List Telling :=
  (do return debugLine ("Candidate " ++ (← Text.ints (round.candidate?.getD [])) ++ " classified "
      ++ finding.classification.name))
    :: match finding with
      | .genuine => []
      | .negativeExcursion stem | .guardViolation stem =>
        [do return debugLine ("Excluded prefix " ++ (← Text.ints stem))]
      | .wrapOnlyLoop pattern =>
        [do return debugLine ("Excluded wrap-only loop " ++ (← pattern.toText))]
      | .inconclusive =>
        [do return debugLine ("Raising modulus to " ++ (← Text.int round.nextModulus))]

/-- What is said during a search over a language. -/
def narrateSearch (round : Round) (languageEmpty : Bool) : List Telling :=
  let lines := round.outcome.narrate
  (if languageEmpty then debugLine "Reachability language is empty" :: lines.drop 1
    else lines).map .ok

/-- What is said after a search. -/
def narrateConsequence (round : Round) : List Telling :=
  match round.finding, round.outcome.status with
  | some finding, _ => round.narrateFinding finding
  | none, .truncated =>
    [do return warningLine ("Budget exhausted (path_length) at modulus "
      ++ (← Text.int round.modulus))]
  | none, _ => []

/-- What is said during a round. -/
def narrate (round : Round) (languageEmpty : Bool) : List Telling :=
  (do return debugLine ("Iteration " ++ written round.iteration ++ ": modulus="
      ++ (← Text.int round.modulus) ++ ", exclusions=" ++ written round.exclusions.size))
    :: round.narrateSearch languageEmpty ++ round.narrateConsequence

end Round

/-- What is said when a ceiling stops the loop between two rounds. -/
def Session.narrateStop (session : Session) : List Telling :=
  match session.verdict with
  | some (.unknown .pathLength) => []
  | some (.unknown limit) =>
    [.ok (warningLine ("Budget exhausted (" ++ limit.name ++ ") after "
      ++ written session.iteration ++ " iterations"))]
  | _ => []

/-- What is said at the end. -/
def QueryResult.narrateAnswer (result : QueryResult) : Telling := do
  return infoLine ("Result: " ++ result.verdict.toText ++ " after "
    ++ written result.session.iteration ++ " iterations, peak modulus "
    ++ (← Text.int result.session.peakModulus) ++ ", "
    ++ (← Error.written (result.wallTime.places? 3)) ++ "s")

namespace Solver
variable {sys : CounterSystem} (solver : Solver sys)

/-- What is said before the first round, from the building of the system on. -/
def narrateOpening : List Telling :=
  let precheck := solver.settings.precheck
  let result := IntegerReach.checkWith solver.integerOracle sys precheck.maxSteps
  sys.narrate ++ [sys.narrateQuery, WalkLanguage.narrate sys]
    ++ if precheck.enabled then result.narrate sys precheck.maxSteps else []

/-- The log of a query before its answer. -/
def narrate (session : Session) : List Telling :=
  let languageEmpty := solver.language.grammar.isEmpty.toOption.getD false
  let rounds := session.rounds ++ session.underway.toList
  solver.narrateOpening ++ rounds.flatMap (·.narrate languageEmpty) ++ session.narrateStop

/-- The result of a query with its log. -/
def tell (clock : Clock) (fuel : Nat) : Option (Except Error QueryResult × List LogLine) :=
  match solver.opening with
  | .error e => some (.error e, Telling.upToFault solver.narrateOpening)
  | .ok session =>
    match solver.course clock fuel session with
    | none => none
    | some (session, some e) => some (.error e, Telling.upToFault (solver.narrate session))
    | some (session, none) =>
      session.verdict.map fun verdict =>
        match QueryResult.ofSession clock session verdict with
        | .error e => (.error e, Telling.upToFault (solver.narrate session))
        | .ok result =>
          (.ok result, Telling.upToFault (solver.narrate session ++ [result.narrateAnswer]))

end Solver
end ZeroRun
