import ZeroRun.IntegerReach.Equations

/-!
Reachability when counters may drop below zero. Every run takes its transitions some number of
times, and these counts solve the linear constraints; if there is no solution that hangs
together, there is no run.

That a solution hangs together is no linear condition. So a solution is asked for in rounds: if
some component of it hangs apart, the component is forbidden, and the next round asks again. An
oracle answers the questions; any one will do that finds a solution whenever there is one.
-/
namespace ZeroRun.IntegerReach

/-- The answer of the check. It is unclear if the oracle gave up, and stopped if the limit on rounds
was reached. -/
inductive Status where
  | reachable (image : Image)
  | unreachable
  | unclear (reason : String)
  | stopped
deriving DecidableEq, Repr

/-- The name of an answer. -/
def Status.name : Status → String
  | .reachable _ => "reachable"
  | .unreachable => "unreachable"
  | .unclear _ | .stopped => "unknown"

/-- The answer, the number of rounds, and how many components each round forbade. -/
structure Result where
  status : Status
  steps : Nat := 0
  forbidden : List Nat := []
deriving DecidableEq, Repr

/-- Does the answer refute that the system has a run? -/
def Result.refutes (result : Result) : Bool :=
  result.status = .unreachable

/-- The counts of a reachable answer. -/
def Result.image (result : Result) : Image :=
  match result.status with
  | .reachable image => image
  | _ => []

/-- Is every number of what the check came to short enough to be written? -/
def Result.isWritable (result : Result) (maxSteps : Option Int) : Bool :=
  match result.status with
  | .reachable image => image.all fun (_, count) => Decimal.isWritable count
  | .stopped => maxSteps.all Decimal.isWritable
  | _ => true

/-- Has the limit on rounds been reached? -/
def atLimit (maxSteps : Option Int) (steps : Nat) : Bool :=
  match maxSteps with
  | none => false
  | some limit => decide (limit ≤ steps)

/-- Round after round, at most `rounds` of them. -/
def refine (oracle : Linear.Oracle) (sys : CounterSystem) (live : List Indexed)
    (maxSteps : Option Int) :
    (rounds : Nat) → (memory : oracle.Memory) → (clauses : List Linear.Clause) → (steps : Nat) →
    (forbidden : List Nat) → Result
  | 0, _, _, steps, forbidden => ⟨.stopped, steps, forbidden⟩
  | rounds + 1, memory, clauses, steps, forbidden =>
    match oracle.ask memory live.length (constraints sys live) clauses with
    | (.refuted, _) => ⟨.unreachable, steps + 1, forbidden⟩
    | (.unknown reason, _) => ⟨.unclear reason, steps + 1, forbidden⟩
    | (.model counts, memory) =>
      match componentsOf sys (takenBy live counts) with
      | [] => ⟨.reachable (imageOf live counts), steps + 1, forbidden⟩
      | components =>
        if atLimit maxSteps (steps + 1) then ⟨.stopped, steps + 1, forbidden⟩
        else
          refine oracle sys live maxSteps rounds memory
            (clauses ++ components.map (connectionClause live)) (steps + 1)
            (forbidden ++ [components.length])

/-- The check with a given oracle. Each round forbids a set of transitions that no earlier round
forbade, which bounds the rounds. -/
def checkWith (oracle : Linear.Oracle) (sys : CounterSystem) (maxSteps : Option Int) : Result :=
  let live := unknowns sys
  if live.isEmpty then { status := .unreachable }
  else refine oracle sys live maxSteps (Nat.pow 2 live.length + 1) oracle.blank [] 0 []

/-- Can the constraints be put to an oracle in writing? -/
def canAsk (sys : CounterSystem) : Bool :=
  (constraints sys (unknowns sys)).all Constraint.isWritable

/-- The constraints that the transitions out of reach are not taken: those whose source is not
reached from the initial state, whatever is taken. -/
def outOfReach (sys : CounterSystem) (live : List Indexed) : List Constraint :=
  (detached sys live).map fun t => countConstraint live t.1 .equal 0

/-- The library's own linear solver as an oracle for a system. Solutions with transitions out of
reach cannot hang together, so others are preferred. -/
def oracleFor (sys : CounterSystem) : Linear.Oracle :=
  match outOfReach sys (unknowns sys) with
  | [] => Linear.solver
  | avoided => Linear.solver.preferring avoided

/-- The check with the library's own linear solver. -/
def check (sys : CounterSystem) (maxSteps : Option Int) : Result :=
  checkWith (oracleFor sys) sys maxSteps

end ZeroRun.IntegerReach
