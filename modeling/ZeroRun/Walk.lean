import ZeroRun.CounterSystem

/-!
Walks of a counter system from its initial state, given by transition indices. Counters play no
part in whether a word is a walk; what a walk does to them is read off its transitions.
-/
namespace ZeroRun

/-- Transitions of the system, each with its index, of which each starts where the one before it
ends. -/
def CounterSystem.Chain (sys : CounterSystem) : Ident → List (Nat × Transition) → Prop
  | _, [] => True
  | state, (index, t) :: rest =>
    sys.transitions[index]? = some t ∧ t.source = state ∧ sys.Chain t.target rest

/-- A walk from the initial state. -/
structure Walk (sys : CounterSystem) where
  steps : List (Nat × Transition)
  valid : sys.Chain sys.initial steps

namespace Walk

/-- Follows a word from a state, and stops at the first index that is unknown or does not fit. -/
def follow (sys : CounterSystem) : (position : Nat) → (state : Ident) → Word →
    Except Error { steps : List (Nat × Transition) // sys.Chain state steps }
  | _, _, [] => .ok ⟨[], trivial⟩
  | position, state, index :: word =>
    if index < 0 then .error (.unknownTransition index position)
    else
      match h : sys.transitions[index.toNat]? with
      | none => .error (.unknownTransition index position)
      | some t =>
        if hs : t.source = state then
          match follow sys (position + 1) t.target word with
          | .error e => .error e
          | .ok ⟨steps, hsteps⟩ => .ok ⟨(index.toNat, t) :: steps, h, hs, hsteps⟩
        else .error (.brokenWalk index position t.source state)

/-- The walk with the given word. -/
def ofWord (sys : CounterSystem) (word : Word) : Except Error (Walk sys) :=
  match follow sys 0 sys.initial word with
  | .error e => .error e
  | .ok ⟨steps, valid⟩ => .ok ⟨steps, valid⟩

variable {sys : CounterSystem} (walk : Walk sys)

/-- The number of transitions taken. -/
def length : Nat :=
  walk.steps.length

/-- The transition indices. -/
def word : Word :=
  walk.steps.map fun p => (p.1 : Int)

/-- The labels along the walk. -/
def labels : List Ident :=
  walk.steps.map fun p => p.2.label

/-- The effects along the walk. -/
def effects : List Counters :=
  walk.steps.map fun p => p.2.effect

/-- The counters after every transition when counting starts at `counters`. -/
def traceFrom (counters : Counters) : List Counters → List Counters
  | [] => [counters]
  | effect :: effects => counters :: traceFrom (counters.add effect) effects

/-- The counters before the first and after every transition. -/
def trace : List Counters :=
  traceFrom sys.zero walk.effects

/-- The sum of all effects. -/
def netEffect : Counters :=
  walk.effects.foldl Counters.add sys.zero

/-- The states visited, the initial one first. -/
def states : List Ident :=
  sys.initial :: walk.steps.map fun p => p.2.target

/-- The last state. -/
def last : Ident :=
  (walk.steps.getLast?.map fun p => p.2.target).getD sys.initial

/-- Does the walk end in the final state? -/
def endsInFinal : Bool :=
  walk.last = sys.final

/-- The pairs of places `i < j` at which a list has the same item, in order. -/
def repeats (states : List Ident) : List (Nat × Nat) :=
  let placed := states.zipIdx
  placed.flatMap fun (a, i) =>
    (placed.drop (i + 1)).filterMap fun (b, j) => if a = b then some (i, j) else none

/-- The pairs of places between which the walk goes in a circle. -/
def cycles : List (Nat × Nat) :=
  repeats walk.states

/-- The largest value of one counter along the walk; a negative index counts from the last
counter. -/
def maxCounter (counter : Int) : Except Error Int := do
  let values ← walk.trace.mapM fun counters =>
    match itemAt? counters counter with
    | some value => .ok value
    | none => .error .indexOutOfRange
  return values.foldl max (values.headD 0)

/-- The largest absolute value of a counter along the walk. -/
def peak : Nat :=
  walk.trace.foldl (fun m counters => max m counters.peak) 0

/-- The walk with its labels, effects and states. -/
def toText : Except Error String := do
  let steps ← walk.steps.mapM fun (_, t) => do
    return "-" ++ (← t.label.plain) ++ (← Text.ints t.effect) ++ "-> " ++ (← t.target.plain)
  return " ".intercalate ((← sys.initial.plain) :: steps)

/-- A line that names the transitions. -/
def summary : Except Error String := do
  return "Path(transitions=" ++ Text.parenthesized (← walk.word.mapM Text.int) ++ ")"

end Walk
end ZeroRun
