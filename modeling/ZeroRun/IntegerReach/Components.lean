import ZeroRun.CounterSystem

/-!
How far a set of taken transitions hangs together. Taken transitions whose source cannot be
reached from the initial state through taken transitions are detached; two detached transitions
belong to the same component if they are linked by detached transitions that share states.
-/
namespace ZeroRun.IntegerReach

/-- A transition with its index. -/
abbrev Indexed := Int × Transition

/-- How often each transition is taken. -/
abbrev Image := List (Int × Int)

/-- The states reached from the initial one through the given transitions. -/
def reachedStates (sys : CounterSystem) (taken : List Indexed) : List Ident :=
  spread (fun state => (taken.filter fun t => t.2.source = state).map fun t => t.2.target)
    taken.length [sys.initial]

/-- The transitions whose source is not reached. -/
def detached (sys : CounterSystem) (taken : List Indexed) : List Indexed :=
  let reached := reachedStates sys taken
  taken.filter fun t => t.2.source ∉ reached

/-- Does a transition begin or end in one of the states? -/
def touches (states : List Ident) (t : Indexed) : Bool :=
  t.2.source ∈ states || t.2.target ∈ states

/-- The states at which transitions begin or end. -/
def endpoints (ts : List Indexed) : List Ident :=
  ts.flatMap fun t => [t.2.source, t.2.target]

/-- One pass over the outer transitions, in order. One that touches what is inside by then is moved
inside, and those after it may touch it. -/
def absorbPass : (inside outside : List Indexed) → List Indexed × List Indexed
  | inside, [] => (inside, [])
  | inside, t :: outside =>
    if touches (endpoints inside) t then absorbPass (inside ++ [t]) outside
    else
      let pass := absorbPass inside outside
      (pass.1, t :: pass.2)

/-- Passes over the outer transitions, until one moves nothing. -/
def absorb : (rounds : Nat) → (inside outside : List Indexed) → List Indexed × List Indexed
  | 0, inside, outside => (inside, outside)
  | rounds + 1, inside, outside =>
    let pass := absorbPass inside outside
    if pass.2.length = outside.length then pass else absorb rounds pass.1 pass.2

/-- Splits transitions into components, each found from its first transition. -/
def splitComponents : (count : Nat) → List Indexed → List (List Indexed)
  | 0, _ => []
  | _ + 1, [] => []
  | count + 1, first :: rest =>
    let (component, others) := absorb rest.length [first] rest
    component :: splitComponents count others

/-- The components of the detached transitions among taken ones, which are given in the order of
their indices. -/
def componentsOf (sys : CounterSystem) (taken : List Indexed) : List (List Indexed) :=
  let loose := detached sys taken
  splitComponents loose.length loose

/-- The indices of a component in order. -/
def indicesOf (component : List Indexed) : List Int :=
  (component.map Prod.fst).mergeSort (· ≤ ·)

/-- The transitions that an image takes, in the order of their indices. A negative index counts
from the end. -/
def takenOf (sys : CounterSystem) (image : Image) : Except Error (List Indexed) :=
  let support := ((image.filter fun entry => 0 < entry.2).map Prod.fst).mergeSort (· ≤ ·)
  support.mapM fun i => do
    let t ← sys.transitionAt i
    return (i, t)

/-- The components of the detached transitions of an image. -/
def detachedComponents (sys : CounterSystem) (image : Image) : Except Error (List (List Int)) := do
  let taken ← takenOf sys image
  return (componentsOf sys taken).map indicesOf

end ZeroRun.IntegerReach
