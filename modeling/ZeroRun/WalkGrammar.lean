import ZeroRun.Grammar.Enumerate
import ZeroRun.Walk

/-!
The grammar of the walks of a counter system. The control graph alone, counters ignored, says
which sequences of transitions are walks from the initial to the final state. They are the words
of a right-linear grammar over transition indices: a nonterminal for each state, an edge for each
live transition, and an epsilon production for the final state. The grammar is trimmed, so every
derivation can be completed.
-/
namespace ZeroRun

/-- The nonterminal for the walks from a state to the final one. -/
def walksFrom (state : Ident) : Ident :=
  .tuple [.text "W", state]

namespace CounterSystem

/-- The production of a transition. -/
def walkEdge (p : Nat × Transition) : Production Int :=
  ⟨walksFrom p.2.source, .edge (p.1 : Int) (some (walksFrom p.2.target))⟩

/-- The nonterminals of the walks, in the order of the states' quoted forms. -/
def walkNames (sys : CounterSystem) : Grammar Int :=
  (Ident.inOrder sys.states).foldl (fun g state => g.addNonterminal (walksFrom state))
    { name := .text "reachability" }

/-- The grammar of the walks, before it is trimmed. -/
def walkGrammar (sys : CounterSystem) : Except Error (Grammar Int) := do
  let ended ← sys.walkNames.addProduction ⟨walksFrom sys.final, .epsilon⟩
  let linked ← sys.liveTransitions.foldlM (fun g p => g.addProduction (walkEdge p)) ended
  linked.setStart (some (walksFrom sys.initial))

/-- The grammar of the walks, trimmed. -/
def trimmedWalks (sys : CounterSystem) : Except Error (Grammar Int) := do
  (← sys.walkGrammar).trim

end CounterSystem
end ZeroRun
