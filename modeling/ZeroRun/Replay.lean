import ZeroRun.Walk

/-!
Exact replay of a word: the counters after every transition, and the first steps at which a
counter is below zero or a guard fails. Steps are numbered from one; a guard fails at the step
of the transition that it belongs to.
-/
namespace ZeroRun

/-- What happened during a replay. The counters are kept from the last to the first. -/
structure Replay where
  current : Counters
  earlier : List Counters := []
  firstNegative : Option Nat := none
  negativeCounter : Option Nat := none
  firstGuardFailure : Option Nat := none

namespace Replay

/-- The counters before the first and after every transition. -/
def vectors (replay : Replay) : List Counters :=
  (replay.current :: replay.earlier).reverse

/-- The sum of all effects. -/
def netEffect (replay : Replay) : Counters :=
  replay.current

/-- The largest absolute value of a counter. -/
def peak (replay : Replay) : Nat :=
  replay.vectors.foldl (fun m counters => max m counters.peak) 0

/-- Did no counter drop below zero? -/
def isNonneg (replay : Replay) : Bool :=
  replay.firstNegative.isNone

/-- The first step at which a counter is below zero or a guard fails. -/
def firstBlock (replay : Replay) : Option Nat :=
  match replay.firstNegative, replay.firstGuardFailure with
  | some a, some b => some (min a b)
  | some a, none => some a
  | none, b => b

/-- Replays one more transition. -/
def step (replay : Replay) (t : Transition) : Replay :=
  let number := replay.earlier.length + 1
  let next := replay.current.add t.effect
  let negative := next.findIdx? (· < 0)
  let fresh := replay.firstNegative.isNone && negative.isSome
  { current := next
    earlier := replay.current :: replay.earlier
    firstNegative := if fresh then some number else replay.firstNegative
    negativeCounter := if fresh then negative else replay.negativeCounter
    firstGuardFailure :=
      if replay.firstGuardFailure.isNone && !t.guard.holds replay.current then some number
      else replay.firstGuardFailure }

/-- Replays transitions from the zero vector. -/
def ofTransitions (sys : CounterSystem) (transitions : List Transition) : Replay :=
  transitions.foldl step { current := sys.zero }

/-- Replays the transitions of a word, which need not be a walk. -/
def ofWord (sys : CounterSystem) (word : Word) : Except Error Replay := do
  let transitions ← word.mapM sys.transitionAt
  return ofTransitions sys transitions

end Replay

/-- The replay of a walk. -/
def Walk.replay {sys : CounterSystem} (walk : Walk sys) : Replay :=
  Replay.ofTransitions sys (walk.steps.map Prod.snd)

end ZeroRun
