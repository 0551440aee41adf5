import ZeroRun.IntegerReach.Components

/-!
The linear constraints on how often a walk takes each live transition, when counters may drop
below zero and guards are ignored:

* each state is entered as often as it is left, but for one departure from the initial and one
  arrival in the final state,
* the effects sum to zero in every counter,
* at least one transition is taken.

A component that hangs apart from the initial state is forbidden by a clause: one of its
transitions is not taken, or some transition that enters it from outside is.
-/
namespace ZeroRun.IntegerReach

/-- One when a condition holds. -/
def one (condition : Bool) : Int :=
  if condition then 1 else 0

/-- The live transitions with their indices. -/
def unknowns (sys : CounterSystem) : List Indexed :=
  sys.liveTransitions.map fun (i, t) => ((i : Int), t)

/-- The state is entered as often as it is left. -/
def flowEquation (sys : CounterSystem) (live : List Indexed) (state : Ident) : Constraint :=
  { coefficients := live.map fun (_, t) => one (t.target = state) - one (t.source = state)
    comparison := .equal
    bound := one (state = sys.final) - one (state = sys.initial) }

/-- The effects on one counter sum to zero. -/
def effectEquation (live : List Indexed) (counter : Nat) : Constraint :=
  { coefficients := live.map fun (_, t) => t.effect.getD counter 0
    comparison := .equal
    bound := 0 }

/-- Some transition is taken. -/
def someTaken (live : List Indexed) : Constraint :=
  ⟨live.map fun _ => 1, .atLeast, 1⟩

/-- All constraints on the counts. -/
def constraints (sys : CounterSystem) (live : List Indexed) : List Constraint :=
  someTaken live :: sys.states.map (flowEquation sys live)
    ++ (List.range sys.dimension).map (effectEquation live)

/-- A constraint on the count of one transition. -/
def countConstraint (live : List Indexed) (index : Int) (comparison : Comparison) (bound : Int) :
    Constraint :=
  ⟨live.map fun (i, _) => one (i = index), comparison, bound⟩

/-- The live transitions that enter the sources of a component from outside. -/
def entriesTo (live component : List Indexed) : List Indexed :=
  let sources := component.map fun t => t.2.source
  live.filter fun t => t.2.target ∈ sources && t.2.source ∉ sources

/-- Not all of the component is taken, or something enters it. -/
def connectionClause (live component : List Indexed) : Linear.Clause :=
  component.map (fun t => countConstraint live t.1 .atMost 0)
    ++ (entriesTo live component).map fun t => countConstraint live t.1 .atLeast 1

/-- The counts of a solution that are positive. -/
def imageOf (live : List Indexed) (counts : List Int) : Image :=
  (List.zip live counts).filterMap fun (t, n) => if 0 < n then some (t.1, n) else none

/-- The transitions that a solution takes. -/
def takenBy (live : List Indexed) (counts : List Int) : List Indexed :=
  (List.zip live counts).filterMap fun (t, n) => if 0 < n then some t else none

end ZeroRun.IntegerReach
